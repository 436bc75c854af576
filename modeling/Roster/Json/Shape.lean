import Roster.Json.Document

/-!
# Reading JSON into shapes

A shape reads a document into a value of some type. What keeps it from doing so is the first problem
in the order of the text: either the text is no JSON there, or it is JSON of another shape. A record
is an object with known members, each at most once, and with others that are skipped; it may also be
an array of the members' values in their order.
-/

namespace Roster.Json

open Text

/-- Why a document cannot be read into a shape. -/
inductive Problem where
  /-- The text is no JSON. -/
  | malformed
  /-- The text is JSON of another shape. -/
  | mismatched
  deriving DecidableEq, Repr

/-- A way of reading a document. -/
abbrev Shape (α : Type) := Document → Except Problem α

namespace Shape

variable {α β σ : Type}

/-- The problem with a document that has another shape than the one asked for: a leaf without a
value is no JSON when it has to be read. -/
def mismatch : Document → Problem
  | .number (.error _) => .malformed
  | .text (.error _) => .malformed
  | .broken => .malformed
  | _ => .mismatched

/-- Reads a text. -/
def text : Shape String
  | .text (.ok s) => .ok s
  | d => .error (mismatch d)

/-- Reads the absent value as nothing, and all else as a shape asks for. -/
def optional (shape : Shape α) : Shape (Option α)
  | .null => .ok none
  | d => (shape d).map some

/-- Reads an array whose items all have one shape. -/
def list (shape : Shape α) : Shape (List α)
  | .array items closed => do
    let values ← items.mapM shape
    if closed then .ok values else .error .malformed
  | .deep _ => .error .malformed
  | d => .error (mismatch d)

/-- A member of a record under construction: its name, whether it has been read, and how it is put
in. -/
structure Slot (σ : Type) where
  /-- The member's name. -/
  name : String
  /-- Whether the member has been read already. -/
  isFilled : σ → Bool
  /-- Puts the value of the member in. -/
  fill : σ → Document → Except Problem σ

/-- A record: its members in order, what it starts from, and how it ends. -/
structure Record (σ α : Type) where
  /-- The members in order. -/
  slots : List (Slot σ)
  /-- The record before any member is read. -/
  start : σ
  /-- The value of a record that came as an object; nothing if a member is missing. -/
  finish : σ → Option α
  /-- The value of a record that came as an array without its last members; nothing if one of those
  has to be there. -/
  finishShort : σ → Option α := finish

namespace Record

/-- Reads the members of an object one after the other. -/
def readMembers (slots : List (Slot σ)) :
    List (Option String × Document) → σ → Except Problem σ
  | [], record => .ok record
  | (none, _) :: _, _ => .error .malformed
  | (some name, value) :: rest, record =>
    match slots.find? (·.name == name) with
    | some slot =>
      if slot.isFilled record then .error .mismatched
      else (slot.fill record value).bind (readMembers slots rest)
    | none => if value.isWhole then readMembers slots rest record else .error .malformed

/-- Reads the items of an array into the members in their order: the record, and whether all members
had an item. Items behind the last member are no part of a record. -/
def readItems (closed : Bool) : List (Slot σ) → List Document → σ → Except Problem (σ × Bool)
  | [], [], record => if closed then .ok (record, true) else .error .malformed
  | [], _ :: _, _ => .error .malformed
  | _ :: _, [], record => if closed then .ok (record, false) else .error .malformed
  | slot :: slots, item :: items, record =>
    (slot.fill record item).bind (readItems closed slots items)

/-- Reads a record. -/
def shape (r : Record σ α) : Shape α
  | .object members closed => do
    let record ← readMembers r.slots members r.start
    if closed then ((r.finish record).map .ok).getD (.error .mismatched) else .error .malformed
  | .array items closed => do
    let (record, full) ← readItems closed r.slots items r.start
    let value := if full then r.finish record else r.finishShort record
    (value.map .ok).getD (.error .mismatched)
  | .deep _ => .error .malformed
  | d => .error (mismatch d)

/-- A record with one member that has to be there. -/
def required (name : String) (shape : Shape α) : Record (Option α) α where
  slots := [⟨name, Option.isSome, fun _ d => (shape d).map some⟩]
  start := none
  finish := id

/-- A record with one member that is nothing when it is missing. -/
def defaulted (name : String) (shape : Shape α) :
    Record (Option (Option α)) (Option α) where
  slots := [⟨name, Option.isSome, fun _ d => (optional shape d).map some⟩]
  start := none
  finish := fun record => some (record.getD none)

end Record

/-- Reads a whole text: a document of a shape and nothing behind it. -/
def read (shape : Shape α) (s : Bytes) : Except Problem α := do
  let (document, last) := Document.ofBytes s
  let value ← shape document
  if last then .ok value else .error .malformed

end Shape

/-! ### Values -/

namespace Document

mutual

/-- The value of a document that is kept as it is. A reader that gives up on a part gets to the
end of the whole only if the end of the part is the end of the whole, closing marks aside. -/
def keep : Document → Except Flaw Json
  | null => .ok .null
  | bool b => .ok (.bool b)
  | number n => n.map .number
  | text s => s.map .string
  | array items true => (keepItems items).map .array
  | object members true => (keepMembers members).map .object
  | _ => .error .inside

/-- The values of the items of an array. -/
def keepItems : List Document → Except Flaw (List Json)
  | [] => .ok []
  | item :: rest =>
    match keep item with
    | .ok value => (keepItems rest).map (value :: ·)
    | .error flaw => .error (if rest.isEmpty then flaw else .inside)

/-- The values of the members of an object. -/
def keepMembers : List (Option String × Document) → Except Flaw (List (String × Json))
  | [] => .ok []
  | (none, _) :: _ => .error .inside
  | (some name, document) :: rest =>
    match keep document with
    | .ok value => (keepMembers rest).map ((name, value) :: ·)
    | .error flaw => .error (if rest.isEmpty then flaw else .inside)

end

end Document

/-- Reads any value. -/
def Shape.value : Shape Json := fun document =>
  document.keep.mapError fun _ => .malformed

/-- The JSON value of a text, its members as they are written. -/
def ofBytes? (s : Bytes) : Option Json :=
  (Shape.read Shape.value s).toOption

/-- The JSON value of a text, its members as they are written. -/
def parse? (s : String) : Option Json :=
  ofBytes? (utf8 s)

end Roster.Json
