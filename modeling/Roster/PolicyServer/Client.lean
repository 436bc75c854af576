import Roster.PolicyServer.Trouble
import Roster.PolicyServer.Wire
import Roster.Settings
import Roster.Token.Grant

/-!
# The client of the policy server

Each of the service's calls about policies becomes a few requests to the policy server. A caller
may act on a space if the server grants an entitlement to it. A policy is fetched with a token
that the service asks for on its own account; the same token stores it. Nothing is sent for a
request that has been given up, and nothing is sent twice.
-/

namespace Roster.PolicyServer

open Json Text

/-- Ends an action with something gone wrong. -/
def fail {α : Type} (t : Trouble) : Action α :=
  throw t.failure

/-- Sends a request and gives back the response, if there is one. -/
def respond (purpose : Purpose) (request : Request) : Action Response := do
  match ← send request with
  | some response => return response
  | none => fail (.unreachable purpose)

/-- Reads a member of a JSON response that is a text. -/
def textIn? (name : String) (body : Bytes) : Option String :=
  (Shape.read (Shape.Record.required name .text).shape body).toOption

/-- Goes on with a value that has been read from a response. -/
def readable {α : Type} (reading : Reading) : Option α → Action α
  | some value => pure value
  | none => fail (.unreadable reading)

/-- Does something unless the request that is worked for has been given up. -/
def guarded {α : Type} (action : Action α) : Action α := do
  if ← isCancelled then fail .cancelled else action

/-- A token that policies are fetched and stored with. -/
def protectionToken (s : RealmSettings) : Action ProtectionToken := do
  let response ← respond .token
    { method := "POST", url := s.tokenEndpoint
      content := .form [("grant_type", "client_credentials"), ("client_id", s.clientId),
        ("client_secret", s.clientSecret)] }
  if response.status = 200 then
    return ⟨← readable .token (textIn? "access_token" response.body)⟩
  else fail (.refused .token response.status response.body)

/-- Fetches a policy, and a token to store it with. -/
def fetch (s : RealmSettings) (policyId : String) : Action (Policy × ProtectionToken) := do
  let token ← protectionToken s
  let response ← respond (.fetch policyId)
    { method := "GET", url := s.policyEndpoint policyId, bearer := some token.text }
  if response.status = 200 then
    let policy ← readable .policy (Policy.ofBytes? response.body)
    Attempt.log
      { level := .debug, message := "Fetched policy"
        fields := [("policy_id", policyId), ("users", policy.config.users)] }
    return (policy, token)
  else fail (.refused (.fetch policyId) response.status response.body)

/-- Stores a policy. That the request has been given up counts until the policy is on its way. -/
def store (s : RealmSettings) (policy : Policy) (token : ProtectionToken) : Action Unit := do
  match policy.id with
  | none => fail .policyWithoutId
  | some policyId => guarded do
    let response ← respond (.store policyId)
      { method := "PUT", url := s.policyEndpoint policyId, bearer := some token.text
        content := .json policy.toJson }
    if Http.Status.isSuccess response.status then
      Attempt.log
        { level := .debug, message := "Updated policy", fields := [("policy_id", policyId)] }
    else fail (.refused (.store policyId) response.status response.body)

/-- The request for an entitlement to a space. -/
def entitlementFor (space : Uuid) : Json :=
  .object [("permissions", .array [.object [("resource_set_name", .string space.text)]])]

/-- Whether the caller may act on a space: whether the server grants an entitlement that covers it.
A server that denies one gives none. -/
def authorize (s : RealmSettings) (caller : Option Caller) (space : Uuid) : Action Bool := do
  match caller with
  | none => fail .callerMissing
  | some caller =>
    let response ← respond .entitlement
      { method := "POST", url := s.entitlementEndpoint, bearer := some caller.token
        content := .json (entitlementFor space) }
    if response.status = 200 then
      let token ← readable .entitlement (textIn? "rpt" response.body)
      match Token.Grant.ofToken? token with
      | some grant => return grant.covers space.text
      | none => fail .unreadableGrant
    else if response.status = 403 then return false
    else fail (.refused .entitlement response.status response.body)

/-- Finds the answer to a call of the service. -/
def answer (s : RealmSettings) :
    (call : Service.Call) → Program wire (Service.interface.Answer call)
  | .find lookup => Program.call (I := wire) (.find lookup)
  | .authorize caller space => (guarded (authorize s caller space)).run
  | .fetch policyId => (guarded (fetch s policyId)).run
  | .store policy token => (guarded (store s policy token)).run

end Roster.PolicyServer
