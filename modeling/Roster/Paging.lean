import Roster.Text.Blank
import Roster.Text.Numeral

/-!
# Pages

A long list is handed out in pages. A request names an offset and a limit in its own words, the
window is the part of the list they come to, and four links lead to the first, the previous, the
next and the last page around it.

When a window would run over the end of the list its limit becomes the length of the list. The
links are computed with that limit, so that on such a page they step by the whole list.

Positions are words of 64 bits. A window is computed without signs and links are computed with
them: a link may start before the list until it is cut. Division and remainder of signed words
round towards zero.
-/

namespace Roster

open Text

/-- The page that a request asks for: an offset as text and a limit. -/
structure PageRequest where
  /-- The offset as it is written. -/
  offset : Option String := none
  /-- The limit. -/
  limit : Option Int := none
  deriving DecidableEq, Repr

namespace PageRequest

/-- The limit of a request that asks for none. -/
def defaultLimit : UInt64 := 20

/-- The greatest limit of a request. -/
def greatestLimit : UInt64 := 100

/-- The position that a request starts at: its offset if that is a positive 64-bit number, blanks
around it aside, and else the start of the list. -/
def start (r : PageRequest) : UInt64 :=
  ((r.offset.bind fun s => readWord? (trim s.toList)).getD 0).toNat.toUInt64

/-- How many items a request asks for: its limit if that is positive, but no more than the greatest
one, and else the default. -/
def size (r : PageRequest) : UInt64 :=
  match r.limit with
  | some l =>
    if l ≤ 0 then defaultLimit
    else if l < greatestLimit.toNat then l.toNat.toUInt64
    else greatestLimit
  | none => defaultLimit

end PageRequest

/-- The part of a list that a page shows. -/
structure Window where
  /-- The position of the first item. -/
  offset : UInt64
  /-- The limit that the links are computed with. -/
  limit : UInt64
  /-- The position behind the last item. -/
  stop : UInt64
  deriving DecidableEq, Repr

namespace Window

/-- The window into a list of some length at an offset and with a limit. An offset behind the list
is its end; a limit that runs over the end is replaced by the length of the list. -/
def of (length offset limit : UInt64) : Window :=
  let offset := if offset ≤ length then offset else length
  let limit := if length < offset + limit then length else limit
  ⟨offset, limit, if offset + limit ≤ length then offset + limit else length⟩

/-- The items of a list that a window shows. -/
def items {α : Type} (w : Window) (l : List α) : List α :=
  (l.take w.stop.toNat).drop w.offset.toNat

end Window

/-- A range of positions that a link leads to. -/
structure PageRange where
  /-- The first position. -/
  start : Int64
  /-- How many positions there are. -/
  size : Int64
  deriving DecidableEq, Repr

namespace PageRange

/-- A range of which nothing lies before the start of the list: what does is cut off. -/
def cut (start size : Int64) : PageRange :=
  if start < 0 then ⟨0, size + start⟩ else ⟨start, size⟩

/-- The link to a range of the list at a path. -/
def link (path : String) (r : PageRange) : String :=
  path ++ "?page[offset]=" ++ String.ofList (ofInt r.start.toInt) ++
    "&page[limit]=" ++ String.ofList (ofInt r.size.toInt)

end PageRange

/-- The ranges around a page. -/
structure PageLinks where
  /-- From the start to where whole pages reach the current one. -/
  first : PageRange
  /-- The page before the current one. -/
  prev : Option PageRange
  /-- The page behind the current one. -/
  next : Option PageRange
  /-- The page with the last item. -/
  last : PageRange
  deriving DecidableEq, Repr

namespace PageLinks

/-- Where the last page starts that ends before an offset behind the list: whole pages are taken
back until one touches the list. -/
def startBehind (offset limit count : Int64) : Int64 :=
  offset - ((offset - count) / limit + 1) * limit

/-- The range before a page, unless the page is at the start or the list is empty. -/
def rangeBefore (offset limit count : Int64) : Option PageRange :=
  if 0 < offset ∧ 0 < count then
    some (PageRange.cut
      (if offset ≤ count then offset - limit else startBehind offset limit count) limit)
  else none

/-- The range behind a page of some size, unless the page reaches the end of the list. -/
def rangeAfter (size offset limit count : Int64) : Option PageRange :=
  if offset + size < count then some ⟨offset + size, limit⟩ else none

/-- The range from the start of the list. It is shorter than the limit where the offset is no
multiple of it. -/
def firstRange (offset limit : Int64) : PageRange :=
  ⟨0, if offset % limit = 0 then limit else offset % limit⟩

/-- The range with the last item of the list. -/
def lastRange (offset limit count : Int64) : PageRange :=
  PageRange.cut
    (if offset < count then offset + ((count - offset - 1) / limit) * limit
      else startBehind offset limit count) limit

/-- The ranges around the page of `size` items at an offset into a list of `count` items. A limit of
zero counts as one. -/
def around (size offset limit count : UInt64) : PageLinks :=
  let limit := (if limit = 0 then 1 else limit).toInt64
  let (size, offset, count) := (size.toInt64, offset.toInt64, count.toInt64)
  ⟨firstRange offset limit, rangeBefore offset limit count, rangeAfter size offset limit count,
    lastRange offset limit count⟩

end PageLinks

end Roster
