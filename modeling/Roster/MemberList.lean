import Roster.Text.Blank
import Roster.Uuid
import Roster.Failure

/-!
# Member lists

The members of a space policy are kept in one text shaped like `["id","id"]`. The text is no JSON:
it is cut at commas, and every part is read without the blanks, brackets and quotes around it. A
text of nothing but blanks, brackets and quotes is the empty list; of any other text one part that
is no identifier spoils the whole.
-/

namespace Roster.MemberList

open Text

/-- The characters around members and around the list. -/
def isMark (c : Char) : Bool :=
  c == '[' || c == ']' || c == '"'

/-- A part of a list without blanks around it, then without marks around it. -/
def strip (s : List Char) : List Char :=
  trimBoth isMark (trim s)

/-- Whether a text holds no member at all. -/
def isVacant (s : List Char) : Bool :=
  (trim (strip s)).isEmpty

/-- A part of a list that is no identifier, as it reads without its decoration. -/
structure Invalid where
  /-- The offending text. -/
  entry : String
  deriving DecidableEq, Repr

/-- The failure that an unreadable list is reported as. -/
def Invalid.failure (e : Invalid) : Failure :=
  { kind := .serverError, message := "Invalid identity id in policy users: " ++ e.entry }

/-- Reads one part of a list. -/
def decodeEntry (s : List Char) : Except Invalid Uuid :=
  match Uuid.ofChars? (strip s) with
  | some id => .ok id
  | none => .error ⟨String.ofList (strip s)⟩

/-- The members that a list names, in order. -/
def decodeChars (s : List Char) : Except Invalid (List Uuid) :=
  if isVacant s then .ok [] else (s.splitOn ',').mapM decodeEntry

/-- The members that a list names, in order. -/
def decode (users : String) : Except Invalid (List Uuid) :=
  decodeChars users.toList

/-- A member in quotes. -/
def quoted (id : Uuid) : List Char :=
  '"' :: id.toChars ++ ['"']

/-- The text of a list: the members in quotes, with commas between them, in brackets. -/
def encodeChars (ids : List Uuid) : List Char :=
  '[' :: List.intercalate [','] (ids.map quoted) ++ [']']

/-- The text of a list: the members in quotes, with commas between them, in brackets. -/
def encode (ids : List Uuid) : String :=
  String.ofList (encodeChars ids)

@[simp] theorem encode_nil : encode [] = "[]" := rfl

end Roster.MemberList
