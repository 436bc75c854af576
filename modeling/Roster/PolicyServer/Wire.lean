import Roster.Service.Call

/-!
# Talking to the policy server

What a client of the policy server calls: it sends requests and asks, before that, whether the
request it works for has been given up meanwhile. What the service looks up in its own directory
stays with it.
-/

namespace Roster.PolicyServer

open Text

/-- What a request carries. -/
inductive Content where
  /-- Nothing. -/
  | empty
  /-- The fields of a form. -/
  | form (fields : List (String × String))
  /-- A JSON value. -/
  | json (value : Json)

/-- A request to the policy server. -/
structure Request where
  /-- The method. -/
  method : String
  /-- The address. -/
  url : String
  /-- The token that the request is sent with. -/
  bearer : Option String := none
  /-- What the request carries. -/
  content : Content := .empty

/-- What the policy server answers. -/
structure Response where
  /-- The status. -/
  status : Nat
  /-- The body. -/
  body : Bytes

/-- A call of the client. -/
inductive Call where
  /-- Looks an entry up. -/
  | find (lookup : Lookup)
  /-- Asks whether the request that is worked for has been given up. -/
  | isCancelled
  /-- Sends a request. -/
  | send (request : Request)

/-- What a call is answered with. There is no response if the server cannot be reached. -/
def Answer : Call → Type
  | .find lookup => Result (Option lookup.Entry)
  | .isCancelled => Bool
  | .send _ => Option Response

/-- What the client calls. -/
def wire : Interface where
  Call := Call
  Answer := Answer

/-- Something the client does. -/
abbrev Action (α : Type) := Attempt wire α

/-- Asks whether the request that is worked for has been given up. -/
def isCancelled : Action Bool :=
  Attempt.call (I := wire) .isCancelled

/-- Sends a request. -/
def send (request : Request) : Action (Option Response) :=
  Attempt.call (I := wire) (.send request)

end Roster.PolicyServer
