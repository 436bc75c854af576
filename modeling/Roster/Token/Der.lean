import Roster.Text.Utf8
import Roster.Text.Numeral

/-!
# Tagged binary values

Values of the distinguished encoding rules, as far as keys need them: each one has a tag, a length
and a content. Sequences hold other values, object identifiers name algorithms, and bit and octet
strings hold keys. All other values are checked and passed over. A sequence is never empty, and
neither is the list of values that a text of bytes stands for.
-/

namespace Roster.Token

open Text

/-- A tagged value. -/
inductive Der where
  /-- Values in a row. -/
  | sequence (items : List Der)
  /-- The arcs of an object identifier. -/
  | identifier (arcs : List Nat)
  /-- The bytes of a bit or octet string. -/
  | bytes (content : Bytes)
  /-- Any other value. -/
  | other

namespace Der

/-- Reads a number in base 128, all of whose bytes but the last have their highest bit set. -/
def readArc (n : Nat) : Bytes → Option (Nat × Bytes)
  | [] => none
  | b :: s =>
    let n := n * 128 + b.toNat % 128
    if b < 0x80 then some (n, s) else readArc n s

/-- Reads a tag: its class and its number. -/
def readTag : Bytes → Option ((Nat × Nat) × Bytes)
  | [] => none
  | b :: s =>
    let kind := b.toNat / 64
    if b.toNat % 32 = 31 then (readArc 0 s).map fun (n, s) => ((kind, n), s)
    else some ((kind, b.toNat % 32), s)

/-- The number that bytes write in base 256. -/
def unsigned (bytes : Bytes) : Nat :=
  bytes.foldl (fun n b => n * 256 + b.toNat) 0

/-- Reads a length: a small number, or the number of up to eight bytes behind their count. -/
def readLength : Bytes → Option (Nat × Bytes)
  | [] => none
  | b :: s =>
    if b < 0x80 then some (b.toNat, s)
    else
      let width := b.toNat % 128
      if width ≤ 8 ∧ width ≤ s.length then some (unsigned (s.take width), s.drop width) else none

/-- Reads the arcs that follow the first byte of an object identifier. There are at most as many as
bytes. -/
def readArcs : Nat → Bytes → Option (List Nat)
  | _, [] => some []
  | 0, _ => none
  | fuel + 1, s => do
    let (arc, s) ← readArc 0 s
    return arc :: (← readArcs fuel s)

/-- Reads an object identifier. The first byte holds two arcs. -/
def identifier? : Bytes → Option (List Nat)
  | [] => none
  | b :: s =>
    let n := b.toNat
    let lead := if n < 40 then [0, n] else if n < 80 then [1, n - 40] else [2, n - 80]
    (readArcs s.length s).map (lead ++ ·)

/-- The bytes of a bit string behind the count of unused bits. -/
def bitString? : Bytes → Option Bytes
  | [] => some []
  | unused :: content => if unused.toNat ≤ content.length * 8 then some content else none

/-- Whether a byte is a character of the printable strings. -/
def isPrintable (b : UInt8) : Bool :=
  let c := Char.ofNat b.toNat
  c.isAlphanum || " '()+,-./:=?".toList.contains c

/-- The days of a month. -/
def daysOfMonth (year month : Nat) : Nat :=
  if month = 2 then if year % 4 = 0 ∧ (year % 100 ≠ 0 ∨ year % 400 = 0) then 29 else 28
  else if month = 4 ∨ month = 6 ∨ month = 9 ∨ month = 11 then 30 else 31

/-- Whether fourteen digits are a date and a time of day. -/
def isTime (s : List Char) : Bool :=
  let part (start size : Nat) := Nat.ofDigitChars 10 ((s.drop start).take size) 0
  s.length = 14 && s.all Char.isDigit &&
    1 ≤ part 4 2 && part 4 2 ≤ 12 && 1 ≤ part 6 2 && part 6 2 ≤ daysOfMonth (part 0 4) (part 4 2) &&
    part 8 2 < 24 && part 10 2 < 60 && part 12 2 < 60

/-- Whether bytes are a time with a year of two digits, from 1950 to 2049. -/
def isShortTime (content : Bytes) : Bool :=
  let s := content.map fun b => Char.ofNat b.toNat
  let century := if Nat.ofDigitChars 10 (s.take 2) 0 < 50 then ['2', '0'] else ['1', '9']
  s.getLast? = some 'Z' && isTime (century ++ s.dropLast)

/-- A text with zeros before its last character, up to a length. -/
def padded (width : Nat) (s : List Char) : List Char :=
  s.dropLast ++ List.replicate (width - s.length) '0' ++ s.drop (s.length - 1)

/-- Whether bytes are a time with a year of four digits, which may have a sign. Digits behind the
second are a fraction of it; the point before them may be missing, and so may they. -/
def isLongTime (content : Bytes) : Bool :=
  let s := content.map fun b => Char.ofNat b.toNat
  let s := padded 25 (if s.contains '.' then s else s.take 14 ++ '.' :: s.drop 14)
  let s := if s.head? = some '+' ∨ s.head? = some '-' then s.drop 1 else s
  let fraction := s.dropLast.drop 14
  15 ≤ content.length && isTime (s.take 14) && fraction.head? = some '.' &&
    2 ≤ fraction.length && fraction.tail.all Char.isDigit && s.getLast? = some 'Z'

/-- Whether the content of a value that is passed over suits the number of its tag. -/
def isSound (tag : Nat) (content : Bytes) : Bool :=
  if tag = 1 then content.length = 1
  else if tag = 12 || tag = 20 || tag = 28 || tag = 30 then (ofUtf8? content).isSome
  else if tag = 19 then content.all isPrintable
  else if tag = 23 then isShortTime content
  else if tag = 24 then isLongTime content
  else true

mutual

/-- The value of a tag and a content. Values of other classes than the universal one are passed
over. -/
def value? : Nat → Nat × Nat → Bytes → Option Der
  | 0, _, _ => none
  | fuel + 1, (kind, tag), content =>
    if kind ≠ 0 then some other
    else if tag = 3 then (bitString? content).map bytes
    else if tag = 4 then some (bytes content)
    else if tag = 6 then (identifier? content).map identifier
    else if tag = 16 then (values? fuel content).map sequence
    else if tag = 17 then (values? fuel content).map fun _ => other
    else if isSound tag content then some other
    else none

/-- Reads values up to the end of the bytes, at least one. -/
def values? : Nat → Bytes → Option (List Der)
  | 0, _ => none
  | fuel + 1, s => do
    let (tag, s) ← readTag s
    let (length, s) ← readLength s
    if s.length < length then none
    else
      let value ← value? fuel tag (s.take length)
      match s.drop length with
      | [] => some [value]
      | rest => return value :: (← values? fuel rest)

end

/-- The values that bytes stand for. Each value takes two bytes at least, and a step into one or
past one costs no more, so the length of the bytes is enough of a bound. -/
def ofBytes? (s : Bytes) : Option (List Der) :=
  values? (s.length + 1) s

mutual

/-- The object identifiers in a value, in order, those in sequences included. -/
def identifiers : Der → List (List Nat)
  | identifier arcs => [arcs]
  | sequence items => identifiersOf items
  | _ => []

/-- The object identifiers in values, in order. -/
def identifiersOf : List Der → List (List Nat)
  | [] => []
  | d :: rest => identifiers d ++ identifiersOf rest

end

mutual

/-- The bit and octet strings in a value, in order, those in sequences included. -/
def strings : Der → List Bytes
  | bytes content => [content]
  | sequence items => stringsOf items
  | _ => []

/-- The bit and octet strings in values, in order. -/
def stringsOf : List Der → List Bytes
  | [] => []
  | d :: rest => strings d ++ stringsOf rest

end

end Der

end Roster.Token
