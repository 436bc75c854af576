import Roster.Number.Shortest
import Roster.Text.Utf8

/-!
# JSON values

A JSON value, its members in the order in which they are written, and its text without spaces.
Whole numbers are exact in the range of the signed and the unsigned 64-bit integers; all other
numbers are binary fractions.
-/

namespace Roster

open Text

/-- A number of a JSON value. -/
inductive Number where
  /-- A whole number. -/
  | integer (value : Int)
  /-- A binary fraction. -/
  | fraction (value : Binary)
  deriving DecidableEq, Repr

/-- The text of a number. -/
def Number.toChars : Number → List Char
  | integer value => ofInt value
  | fraction value => value.toChars

/-- A JSON value. -/
inductive Json where
  /-- The absent value. -/
  | null
  /-- A truth value. -/
  | bool (value : Bool)
  /-- A number. -/
  | number (value : Number)
  /-- A text. -/
  | string (value : String)
  /-- A list of values. -/
  | array (items : List Json)
  /-- Named values, in the order in which they are written. -/
  | object (members : List (String × Json))

namespace Json

/-- A whole number. -/
def int (i : Int) : Json := .number (.integer i)

/-- A natural number. -/
def nat (n : Nat) : Json := .int n

/-- A text, or the absent value. -/
def ofString? (s : Option String) : Json := (s.map .string).getD .null

/-- The members of an object; other values have none. -/
def members : Json → List (String × Json)
  | object members => members
  | _ => []

/-- The value of a member; of two members with one name the later one counts. -/
def get? (j : Json) (name : String) : Option Json :=
  (j.members.reverse.find? (·.1 == name)).map (·.2)

/-- The value under a name, if there is one; nothing at all if there are several. -/
def only? (members : List (String × Json)) (name : String) : Option (Option Json) :=
  match members.filter (·.1 == name) with
  | [] => some none
  | [(_, value)] => some (some value)
  | _ => none

/-! ### Text -/

/-- The lower-case hexadecimal digit of a number below sixteen. -/
def lowerHex (n : Nat) : Char :=
  if n < 10 then Char.ofNat (0x30 + n) else Char.ofNat (0x57 + n)

/-- A character inside quotes. -/
def escaped (c : Char) : List Char :=
  if c = '"' then ['\\', '"']
  else if c = '\\' then ['\\', '\\']
  else if c = '\n' then ['\\', 'n']
  else if c = '\r' then ['\\', 'r']
  else if c = '\t' then ['\\', 't']
  else if c.toNat = 8 then ['\\', 'b']
  else if c.toNat = 12 then ['\\', 'f']
  else if c.toNat < 32 then ['\\', 'u', '0', '0', lowerHex (c.toNat / 16), lowerHex (c.toNat % 16)]
  else [c]

/-- A text in quotes. -/
def quote (s : String) : List Char :=
  '"' :: s.toList.flatMap escaped ++ ['"']

mutual

/-- The text of a value, without spaces. -/
def toChars : Json → List Char
  | null => ['n', 'u', 'l', 'l']
  | bool true => ['t', 'r', 'u', 'e']
  | bool false => ['f', 'a', 'l', 's', 'e']
  | number value => value.toChars
  | string value => quote value
  | array items => '[' :: (itemsToChars items ++ [']'])
  | object members => '{' :: (membersToChars members ++ ['}'])

/-- The texts of values with commas between them. -/
def itemsToChars : List Json → List Char
  | [] => []
  | [item] => toChars item
  | item :: rest => toChars item ++ ',' :: itemsToChars rest

/-- The texts of named values with commas between them. -/
def membersToChars : List (String × Json) → List Char
  | [] => []
  | [(name, value)] => quote name ++ ':' :: toChars value
  | (name, value) :: rest => quote name ++ ':' :: (toChars value ++ ',' :: membersToChars rest)

end

/-- The text of a value, without spaces. -/
def text (j : Json) : String :=
  String.ofList j.toChars

/-! ### One value per name -/

/-- Puts a value under a name: in the place of the earlier value of that name, or at the end. -/
def put (name : String) (value : Json) : List (String × Json) → List (String × Json)
  | [] => [(name, value)]
  | (n, v) :: rest => if n = name then (n, value) :: rest else (n, v) :: put name value rest

/-- Named values with one value per name, the last one. -/
def lastOfEach (members : List (String × Json)) : List (String × Json) :=
  members.foldl (fun kept (name, value) => put name value kept) []

mutual

/-- A value whose objects, at every depth, have one value per name, the last one. -/
def settle : Json → Json
  | array items => .array (settleItems items)
  | object members => .object (lastOfEach (settleMembers members))
  | j => j

/-- The items of an array, each settled. -/
def settleItems : List Json → List Json
  | [] => []
  | item :: rest => settle item :: settleItems rest

/-- The members of an object, each value settled. -/
def settleMembers : List (String × Json) → List (String × Json)
  | [] => []
  | (name, value) :: rest => (name, settle value) :: settleMembers rest

end

end Json

end Roster
