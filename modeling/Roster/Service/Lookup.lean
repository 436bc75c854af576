import Roster.Service.Call
import Roster.Service.Refusal

/-!
# Finding what a request names

The steps that requests share: reading the text of an identifier, finding an entry that has to be
there, and fetching the policy that lists the members of a space.
-/

namespace Roster.Service

/-- Ends an action with a refusal. -/
def refuse {α : Type} (r : Refusal) : Action α :=
  throw r.failure

/-- Reads the text of an identifier. -/
def readId (malformed : String → Refusal) (text : String) : Action Uuid :=
  match Uuid.parse? text with
  | some id => pure id
  | none => refuse (malformed text)

/-- Goes on with the value of a result; a failure counts as one of a kind. -/
def accept {α : Type} (kind : FailureKind) (r : Result α) : Action α :=
  Attempt.ofResult (r.as kind)

/-- Finds an entry that has to be there. -/
def entry (kind : FailureKind) (lookup : Lookup) (missing : Action lookup.Entry) :
    Action lookup.Entry := do
  match ← accept kind (← find lookup) with
  | some entry => pure entry
  | none => missing

/-- Fetches the policy that lists the members of a space, and a token to store it with. -/
def fetchOf (space : Uuid) : Action (Policy × ProtectionToken) := do
  let resource : SpaceResource ←
    entry .notFound (.resource space) (refuse .unknownResource)
  accept .serverError (← fetch resource.policyId)

end Roster.Service
