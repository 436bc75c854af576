import Roster.Failure
import Roster.Http.Status
import Roster.Text.Utf8

/-!
# Trouble with the policy server

What can go wrong between the service and the policy server, with the words for it.
-/

namespace Roster.PolicyServer

open Text

/-- What a request to the policy server is for. -/
inductive Purpose where
  /-- To get a token that policies are fetched and stored with. -/
  | token
  /-- To fetch the policy of an identifier. -/
  | fetch (policyId : String)
  /-- To store the policy of an identifier. -/
  | store (policyId : String)
  /-- To learn whether a caller may act on a space. -/
  | entitlement
  deriving DecidableEq, Repr

/-- What is read from a response. -/
inductive Reading where
  /-- A token that policies are fetched and stored with. -/
  | token
  /-- A policy. -/
  | policy
  /-- What is granted to a caller. -/
  | entitlement
  deriving DecidableEq, Repr

/-- What can go wrong. -/
inductive Trouble where
  /-- The request that is worked for has been given up. -/
  | cancelled
  /-- Nobody makes the request that is worked for. -/
  | callerMissing
  /-- A policy to be stored has no identifier. -/
  | policyWithoutId
  /-- The server could not be reached. -/
  | unreachable (purpose : Purpose)
  /-- The server's response could not be read. -/
  | unreadable (reading : Reading)
  /-- The server refused. -/
  | refused (purpose : Purpose) (status : Nat) (body : Bytes)
  /-- The token that lists what is granted could not be read. -/
  | unreadableGrant
  deriving DecidableEq, Repr

namespace Purpose

/-- The words for not reaching the server. -/
def unreachable : Purpose → String
  | token => "Failed to request protection token"
  | fetch _ => "Failed to request policy"
  | store _ => "Failed to send policy update"
  | entitlement => "Failed to request entitlement"

/-- The words for a refusal. -/
def refused : Purpose → String
  | token => "Failed to obtain protection token"
  | fetch policyId => "Failed to get policy " ++ policyId
  | store policyId => "Failed to update policy " ++ policyId
  | entitlement => "Failed to obtain entitlement"

end Purpose

/-- The words for a response that cannot be read. -/
def Reading.unreadable : Reading → String
  | token => "Failed to parse protection token response"
  | policy => "Failed to parse policy"
  | entitlement => "Failed to parse entitlement response"

namespace Trouble

/-- The words for what went wrong. -/
def message : Trouble → String
  | cancelled => "Request cancelled"
  | callerMissing => "Missing caller"
  | policyWithoutId => "Policy has no id"
  | unreachable purpose => purpose.unreachable
  | unreadable reading => reading.unreadable
  | refused purpose status body =>
    purpose.refused ++ " (" ++ Http.Status.text status ++ "): " ++
      ofUtf8Lossy (withoutMark body)
  | unreadableGrant => "Failed to decode RPT"

/-- The failure that something gone wrong is. -/
def failure (t : Trouble) : Failure where
  kind := if t = callerMissing then .unauthorized else .serverError
  message := t.message

end Trouble

end Roster.PolicyServer
