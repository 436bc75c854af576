import Roster.Http.Address
import Roster.Memory.Backend
import Roster.PolicyServer.Wire

/-!
# A scripted policy server

A policy server that answers one request after the other with prepared responses, or that cannot be
reached at all. A request whose token cannot be sent as a header does not reach any server.
-/

namespace Roster.PolicyServer

open Text

/-! ### What arrives of a request -/

namespace Request

/-- The path and the query that the request arrives with. -/
def target (r : Request) : String :=
  Http.Address.target r.url

/-- The text that the request is authorized by. Blanks at its end do not arrive. -/
def authorization? (r : Request) : Option String :=
  r.bearer.map fun token =>
    let blank (c : Char) : Bool := c == ' ' || c == '\t'
    String.ofList (("Bearer " ++ token).toList.reverse.dropWhile blank).reverse

end Request

/-! ### The server -/

/-- A server with prepared responses, and what else a client calls. -/
structure Script where
  /-- The responses that are left; nothing if the server cannot be reached. -/
  responses : Option (List Response)
  /-- Whether the request that is worked for has been given up. -/
  cancelled : Bool
  /-- What the service's directory is answered from. -/
  backend : Backend

namespace Script

/-- The response when there are no prepared ones left. -/
def exhausted : Response where
  status := 500
  body := utf8 "script exhausted"

/-- Whether a text can be sent as a header: it holds no control characters but tabs. -/
def isSendable (s : String) : Bool :=
  (utf8 s).all fun b => (0x20 ≤ b && b ≠ 0x7F) || b == 0x09

/-- A response as it arrives: some statuses come without a body. -/
def delivered (r : Response) : Response :=
  if r.status = 204 ∨ r.status = 304 then { r with body := [] } else r

/-- Answers a call of a client. -/
def answer : Handler wire Script
  | .find lookup, s => (s.backend.find lookup, s)
  | .isCancelled, s => (s.cancelled, s)
  | .send request, s =>
    match s.responses with
    | none => (none, s)
    | some responses =>
      if !(request.bearer.map isSendable).getD true then (none, s)
      else match responses with
        | [] => (some exhausted, s)
        | r :: rest => (some (delivered r), { s with responses := some rest })

/-- Runs an action of a client. -/
def run {α : Type} (s : Script) (action : Action α) : Run wire Script (Result α) :=
  Program.run answer action.run s

/-- The requests that reached a server, in order. -/
def received (exchanges : List (Exchange wire)) : List Request :=
  exchanges.filterMap fun
    | ⟨.send request, some _⟩ => some request
    | _ => none

end Script

end Roster.PolicyServer
