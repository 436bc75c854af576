import Roster.Http.Message

/-!
# Kinds of content

A kind of content is a type and a subtype with a slash between them, and parameters behind
semicolons. The subtype may end in a plus sign and the general format that the content is written
in, such as `application/problem+json`.
-/

namespace Roster.Http

/-- A kind of content, in lower case and without parameters. -/
structure MediaType where
  /-- The type. -/
  type : List Char
  /-- The subtype, without the general format. -/
  subtype : List Char
  /-- The general format behind the last plus sign. -/
  format : Option (List Char)
  deriving DecidableEq, Repr

namespace MediaType

/-- The characters of types, subtypes, and names and values of parameters. -/
def isToken (c : Char) : Bool :=
  c.isAlphanum || "!#$%&'*+-.^_`|~".toList.contains c

/-- Where a reader stands in the parameters. -/
inductive Place where
  /-- Behind a semicolon, before a name. -/
  | gap
  /-- In a name. -/
  | name
  /-- Behind the sign between name and value. -/
  | start
  /-- In a value. -/
  | value
  /-- Behind the opening quote of a value. -/
  | opened
  /-- In a quoted value. -/
  | quoted
  /-- Behind a quoted value. -/
  | closed
  deriving DecidableEq

/-- The characters of a quoted value. -/
def isQuotable (c : Char) : Bool :=
  31 < c.toNat && c.toNat ≠ 127

/-- Where a reader stands after one more character; nowhere if the character may not stand there. -/
def Place.step : Place → Char → Option Place
  | gap, c => if c = ' ' then some gap else if isToken c then some name else none
  | name, c => if isToken c then some name else if c = '=' then some start else none
  | start, c => if c = '"' then some opened else if isToken c then some value else none
  | value, c => if isToken c then some value else if c = ';' then some gap else none
  | opened, c => if isQuotable c then some quoted else none
  | quoted, c => if c = '"' then some closed else if isQuotable c then some quoted else none
  | closed, c => if c = ' ' then some closed else if c = ';' then some gap else none

/-- Whether parameters may end at a place. -/
def Place.mayEnd (p : Place) : Bool :=
  p = gap || p = start || p = value || p = closed

/-- Whether a text consists of parameters. -/
def areParameters (s : List Char) : Bool :=
  ((s.foldlM Place.step .gap).map Place.mayEnd).getD false

/-- Reads a subtype: up to its last plus sign, unless that is its first character, and the format
behind it. -/
def ofParts (type subtype : List Char) : MediaType :=
  let format := (subtype.reverse.takeWhile (· ≠ '+')).reverse
  let rest := subtype.length - format.length
  if 1 < rest then ⟨type, subtype.take (rest - 1), some format⟩ else ⟨type, subtype, none⟩

/-- Reads a kind of content. -/
def ofChars? (s : List Char) : Option MediaType :=
  let type := s.takeWhile isToken
  match s.dropWhile isToken with
  | '/' :: s =>
    let subtype := s.takeWhile isToken
    let kind := ofParts (type.map Char.toLower) (subtype.map Char.toLower)
    match s.dropWhile isToken with
    | [] => if type ≠ [] then some kind else none
    | ';' :: s => if type ≠ [] ∧ subtype ≠ [] ∧ areParameters s then some kind else none
    | _ => none
  | _ => none

/-- Whether content is JSON: of the application types, as the subtype or as the general format. -/
def isJson (t : MediaType) : Bool :=
  t.type = "application".toList &&
    (t.subtype = "json".toList || t.format = some "json".toList)

end MediaType

/-- Whether a request says that its body is JSON. -/
def Request.hasJson (r : Request) : Bool :=
  (((r.header? "content-type").bind MediaType.ofChars?).map MediaType.isJson).getD false

end Roster.Http
