import Roster.Http.MediaType
import Roster.Json.Shape

/-!
# Payloads

The body of a request read as a JSON document of some shape whose value has to satisfy some rules.
What is wrong is looked for in this order: the kind of content, the size of the body, its text and
shape, and at last the rules. Where a payload may be missing, a body of nothing but blanks is
none, whatever kind of content it is said to be; any other body is read as if it had to be there.
-/

namespace Roster.Http

open Text Json

/-- A rule for one member of a payload. -/
structure Rule (α : Type) where
  /-- The member. -/
  member : String
  /-- Whether the rule is kept. -/
  holds : α → Bool
  /-- What the member has to be like. -/
  wording : String

/-- What keeps a payload from being read. -/
inductive PayloadError where
  /-- The content is not said to be JSON. -/
  | otherContent
  /-- The body is too long. -/
  | tooLong
  /-- The body, which may be missing, is too long. -/
  | tooLongToSkip
  /-- The body is no JSON. -/
  | malformed
  /-- The body is JSON of another shape. -/
  | mismatched
  /-- A member does not keep a rule. -/
  | broken (member wording : String)
  deriving DecidableEq, Repr

namespace PayloadError

/-- The kind of failure that an unreadable payload is. -/
def kind : PayloadError → FailureKind
  | broken _ _ => .badRequest
  | _ => .invalidBody

/-- The words for an unreadable payload. -/
def message : PayloadError → String
  | otherContent => "Expected request with `Content-Type: application/json`"
  | tooLong => "Failed to buffer the request body: length limit exceeded"
  | tooLongToSkip => "Failed to read payload"
  | malformed => "Failed to parse the request body as JSON"
  | mismatched => "Failed to deserialize the JSON body into the target type"
  | broken member wording => "Bad Payload: " ++ member ++ ": " ++ wording

/-- The failure that an unreadable payload is. -/
def failure (e : PayloadError) : Failure where
  kind := e.kind
  message := e.message

/-- The error of a body that a shape cannot be read from. -/
def ofProblem : Problem → PayloadError
  | .malformed => malformed
  | .mismatched => mismatched

end PayloadError

namespace Payload

variable {α : Type}

/-- The greatest length of a body. -/
def greatestLength : Nat := 2 * 1024 * 1024

/-- Makes sure that a value keeps its rules. -/
def check (rules : List (Rule α)) (value : α) : Except PayloadError α :=
  match rules.find? fun rule => !rule.holds value with
  | some rule => .error (.broken rule.member rule.wording)
  | none => .ok value

/-- Reads a payload that has to be there. -/
def read (shape : Shape α) (rules : List (Rule α)) (r : Request) : Except PayloadError α := do
  if !r.hasJson then throw .otherContent
  if greatestLength < r.body.length then throw .tooLong
  let value ← (Shape.read shape r.body).mapError PayloadError.ofProblem
  check rules value

/-- Whether a byte is an ASCII blank. -/
def isBlankByte (b : UInt8) : Bool :=
  b == 0x20 || b == 0x09 || b == 0x0A || b == 0x0C || b == 0x0D

/-- Reads a payload that may be missing. -/
def read? (shape : Shape α) (rules : List (Rule α)) (r : Request) :
    Except PayloadError (Option α) :=
  if greatestLength < r.body.length then .error .tooLongToSkip
  else if r.body.all isBlankByte then .ok none
  else (read shape rules r).map some

end Payload

end Roster.Http
