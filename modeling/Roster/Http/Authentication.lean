import Roster.Http.Message
import Roster.Service.Call
import Roster.Text.Blank
import Roster.Token.Realm

/-!
# Who makes a request

A request that changes something carries a token of the realm in its authorization header, behind
the word `Bearer`. The token is passed on as it is; the caller is the identity that it has for a
subject.
-/

namespace Roster.Http

open Text

/-- Why it is not known who makes a request. -/
inductive Anonymity where
  /-- There is no readable authorization header. -/
  | missingHeader
  /-- The authorization header holds no token. -/
  | missingToken
  /-- The token does not count. -/
  | rejected (rejection : Token.Rejection)
  deriving DecidableEq, Repr

/-- The failure that an unknown caller is. -/
def Anonymity.failure : Anonymity → Failure
  | missingHeader => { kind := .unauthorized, message := "Missing authorization token" }
  | missingToken => { kind := .unauthorized, message := "Missing bearer" }
  | rejected rejection => rejection.failure

/-- What stands in front of a token. -/
def bearerLead : List Char := "Bearer ".toList

/-- The token of a request, without blanks around it. -/
def Request.bearer (r : Request) : Except Anonymity String :=
  match r.header? "authorization" with
  | none => .error .missingHeader
  | some value =>
    let value := trim value
    let token := trim (value.drop bearerLead.length)
    if bearerLead.isPrefixOf value ∧ token ≠ [] then .ok (String.ofList token)
    else .error .missingToken

/-- The caller that makes a request at a second. -/
def Request.caller (realm : Token.Realm) (now : Nat) (r : Request) : Except Anonymity Caller := do
  let token ← r.bearer
  let subject ← (realm.accept now token).mapError .rejected
  let identity ← subject.identity.mapError .rejected
  return { identity, token }

end Roster.Http
