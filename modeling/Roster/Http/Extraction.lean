import Roster.Http.Payload

/-!
# Taking payloads out of requests

A handler takes the payload out of a request whose body is still arriving, piece by piece. A payload
that has to be there is read from the request with all of its body. Whether a payload that may be
missing is there at all shows only in the body, so that is taken in first, as far as there is room
for it. If it is nothing but blanks, there is no payload, whatever the headers say; if not, the
request is put together again, its body now in one piece, and the payload is taken out of it as one
that has to be there.

What keeps a handler from its payload is a failure of that one request, and it is reported with the
identifier that the request was given on its way in.
-/

namespace Roster.Http

open Text Json

/-- What of a request comes before its body. -/
structure Head where
  /-- The method. -/
  method : String := "POST"
  /-- Where the request goes. -/
  target : Target := {}
  /-- The headers in order. -/
  headers : List Header := []
  /-- The identifier that the request was given, if it was given one. -/
  requestId : Option String := none

/-- A request whose body is still arriving. -/
structure Incoming where
  /-- What has come before the body. -/
  head : Head
  /-- The pieces of the body in the order in which they arrive. -/
  pieces : List Bytes

/-- A failure, and which request failed. -/
structure RequestFailure where
  /-- The failure. -/
  failure : Failure
  /-- The identifier of the request, empty if it was given none. -/
  requestId : String
  deriving DecidableEq, Repr

namespace Head

/-- The request with all of its body. -/
def withBody (h : Head) (body : Bytes) : Request where
  method := h.method
  target := h.target
  headers := h.headers
  body

/-- The failure of the request that an unreadable payload is. -/
def failure (h : Head) (e : PayloadError) : RequestFailure where
  failure := e.failure
  requestId := h.requestId.getD ""

end Head

namespace Incoming

/-- The request put together of a head and a body that has been taken in. -/
def ofBody (head : Head) (body : Bytes) : Incoming where
  head
  pieces := [body]

/-- All of the body. -/
def body (r : Incoming) : Bytes :=
  r.pieces.flatten

/-- The request with all of its body. -/
def request (r : Incoming) : Request :=
  r.head.withBody r.body

end Incoming

namespace Payload

variable {α : Type}

/-- The greatest length of a body that is taken in to see whether there is a payload. -/
def greatestOptional : Nat := 2 * 1024 * 1024

/-- Takes a body in piece by piece. It is given up at the first piece that there is no room for. -/
def takeIn (room : Nat) : List Bytes → Option Bytes
  | [] => some []
  | piece :: pieces =>
    if room < piece.length then none
    else (takeIn (room - piece.length) pieces).map (piece ++ ·)

/-- Takes a payload that has to be there out of a request. -/
def extract (shape : Shape α) (rules : List (Rule α)) (r : Incoming) :
    Except RequestFailure α :=
  (read shape rules r.request).mapError r.head.failure

/-- Takes a payload that may be missing out of a request. -/
def extract? (shape : Shape α) (rules : List (Rule α)) (r : Incoming) :
    Except RequestFailure (Option α) :=
  match takeIn greatestOptional r.pieces with
  | none => .error (r.head.failure .tooLongToSkip)
  | some body =>
    if body.all isBlankByte then .ok none
    else (extract shape rules (.ofBody r.head body)).map some

end Payload

end Roster.Http
