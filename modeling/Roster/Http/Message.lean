import Roster.Failure
import Roster.Event
import Roster.Json.Basic
import Roster.Text.Split

/-!
# Requests and responses

A request as the service receives it, the response it sends back, and the response that a failure is
reported as: a small JSON object with the status and the failure's line.
-/

namespace Roster.Http

open Text

/-- A named value of a request. -/
structure Header where
  /-- The name; its letter case does not matter. -/
  name : String
  /-- The value. -/
  value : Bytes

/-- Where a request goes. -/
structure Target where
  /-- The scheme and the host in front of the path, if they are written. -/
  origin : String := ""
  /-- The path, as it is written. -/
  path : String := ""
  /-- The query behind the path, as it is written, if there is one. -/
  query : Option String := none
  deriving DecidableEq, Repr

/-- A request. -/
structure Request where
  /-- The method. -/
  method : String := "POST"
  /-- Where the request goes. -/
  target : Target := {}
  /-- The headers in order. -/
  headers : List Header := []
  /-- The body. -/
  body : Bytes := []

/-- A response. -/
structure Response where
  /-- The status. -/
  status : Nat
  /-- The kind of content, if there is content. -/
  contentType : Option String := none
  /-- The methods that a resource answers to, where the response is about them. -/
  allow : Option String := none
  /-- The request that the response belongs to. -/
  requestId : Option String := none
  /-- The body. -/
  body : String := ""
  deriving DecidableEq, Repr

/-! ### Targets -/

namespace Target

/-- The scheme of an origin; the two schemes of the web are written in lower case. -/
def normalScheme (scheme : List Char) : List Char :=
  let lower := scheme.map Char.toLower
  if lower = "http".toList ∨ lower = "https".toList then lower else scheme

/-- Reads a path and a query. A fragment behind them is dropped. -/
def ofPathChars (origin : List Char) (s : List Char) : Target :=
  let s := s.takeWhile (· ≠ '#')
  let path := s.takeWhile (· ≠ '?')
  let query := match s.dropWhile (· ≠ '?') with
    | [] => none
    | _ :: query => some (String.ofList query)
  { origin := String.ofList origin
    path := String.ofList (if path.isEmpty then ['/'] else path)
    query }

/-- Whether a path, a query or a fragment starts at a character. -/
def startsPath (c : Char) : Bool :=
  c == '/' || c == '?' || c == '#'

/-- Reads a target: a path and a query, which may stand behind a scheme and a host. A host alone has
no path. -/
def ofChars (s : List Char) : Target :=
  if s.head? = some '/' ∨ s = ['*'] then ofPathChars [] s
  else match splitAtFirst "://".toList s with
    | some (scheme, rest) =>
      ofPathChars (normalScheme scheme ++ "://".toList ++ rest.takeWhile (!startsPath ·))
        (rest.dropWhile (!startsPath ·))
    | none => { origin := String.ofList s }

/-- Reads a target. -/
def parse (s : String) : Target :=
  ofChars s.toList

/-- The text of a target. -/
def text (t : Target) : String :=
  t.origin ++ t.path ++ (t.query.map ("?" ++ ·)).getD ""

end Target

/-! ### Headers -/

/-- A text in lower case, as far as its letters are ASCII. -/
def lowerCase (s : String) : List Char :=
  s.toList.map Char.toLower

/-- The bytes that the value of a readable header consists of: the visible ASCII ones, spaces and
tabs. -/
def isReadable (b : UInt8) : Bool :=
  (0x20 ≤ b && b ≤ 0x7E) || b == 0x09

/-- The value of the first header of a name, if all of it is readable. -/
def Request.header? (r : Request) (name : String) : Option (List Char) := do
  let header ← r.headers.find? fun header => lowerCase header.name = lowerCase name
  if header.value.all isReadable then some (header.value.map fun b => Char.ofNat b.toNat) else none

/-! ### Responses -/

namespace Response

/-- The kind of content of JSON texts. -/
def jsonType : String := "application/json"

/-- The kind of content of plain texts. -/
def plainType : String := "text/plain; charset=utf-8"

/-- A response with a JSON value. -/
def json (status : Nat) (value : Json) : Response where
  status
  contentType := some jsonType
  body := value.text

/-- A response with a plain text. -/
def plain (status : Nat) (text : String) : Response where
  status
  contentType := some plainType
  body := text

/-- A response with a status and a message, as JSON. -/
def message (status : Nat) (text : String) : Response :=
  json status (.object [("status", .nat status), ("message", .string text)])

end Response

end Roster.Http

namespace Roster

/-- The response that reports a failure. -/
def Failure.response (f : Failure) : Http.Response :=
  .message f.kind.status f.line

/-- The event that reports a failure of a request. -/
def Failure.event (requestId : String) (f : Failure) : Event where
  level := if f.kind.status = 500 then .error else .warn
  message := f.line
  fields := [("req_id", requestId), ("at", f.trailText), ("err", f.cause)]

end Roster
