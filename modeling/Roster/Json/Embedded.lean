import Roster.Json.Shape

/-!
# Embedded texts

A value may be given by its JSON text: an object whose first name says so has that text for its only
value and stands for what the text says. The text may embed others in turn. An object that has the
name further behind is an object like any other.
-/

namespace Roster.Json

/-- The name that says that the text of a value stands in place of the value. -/
def embeddedName : String := "$serde_json::private::RawValue"

mutual

/-- A value with what a reader makes of each text that is embedded in it; nothing if an embedded
text does not stand alone, or if the reader makes nothing of it. -/
def expandWith (read : String → Option Json) : Json → Option Json
  | array items => (expandItems read items).map .array
  | object [] => some (object [])
  | object ((name, value) :: rest) =>
    if name = embeddedName then
      match value, rest with
      | string s, [] => read s
      | _, _ => none
    else do
      let value ← expandWith read value
      return object ((name, value) :: (← expandMembers read rest))
  | j => some j

/-- The items of an array, each with its embedded texts read. -/
def expandItems (read : String → Option Json) : List Json → Option (List Json)
  | [] => some []
  | item :: rest => do return (← expandWith read item) :: (← expandItems read rest)

/-- The members of an object, each with its embedded texts read. -/
def expandMembers (read : String → Option Json) :
    List (String × Json) → Option (List (String × Json))
  | [] => some []
  | (name, value) :: rest => do
    return (name, ← expandWith read value) :: (← expandMembers read rest)

end

/-- The value of an embedded text, for texts that lie inside each other so many times at most. -/
def ofEmbedded? : Nat → String → Option Json
  | 0, _ => none
  | depth + 1, s => (parse? s).bind (expandWith (ofEmbedded? depth))

/-- The value of an embedded text. A text inside it is shorter, so its length bounds their depth. -/
def ofEmbeddedText? (s : String) : Option Json :=
  ofEmbedded? s.length s

/-- A value with all embedded texts replaced by their values. -/
def expand? : Json → Option Json :=
  expandWith ofEmbeddedText?

end Roster.Json
