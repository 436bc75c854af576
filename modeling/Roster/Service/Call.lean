import Roster.Directory
import Roster.Policy
import Roster.Program

/-!
# What the service calls

The service looks entries up in a directory, asks whether a caller may act on a space, and fetches
and stores policies. Nothing else of its surroundings is known to it. A policy is stored with the
token that it was fetched with.
-/

namespace Roster

/-- Who makes a request. -/
structure Caller where
  /-- The caller's identity. -/
  identity : Uuid
  /-- The token that the caller came with, which entitlements are asked for with. -/
  token : String
  deriving DecidableEq

namespace Service

/-- A call of the service. -/
inductive Call where
  /-- Looks an entry up. -/
  | find (lookup : Lookup)
  /-- Asks whether the caller may act on a space. -/
  | authorize (caller : Option Caller) (space : Uuid)
  /-- Fetches the policy of an identifier, and a token to store it with. -/
  | fetch (policyId : String)
  /-- Stores a policy. -/
  | store (policy : Policy) (token : ProtectionToken)

/-- What a call is answered with. -/
@[reducible] def Answer : Call → Type
  | .find lookup => Result (Option lookup.Entry)
  | .authorize _ _ => Result Bool
  | .fetch _ => Result (Policy × ProtectionToken)
  | .store _ _ => Result Unit

/-- What the service calls. -/
@[reducible] def interface : Interface where
  Call := Call
  Answer := Answer

/-- Something the service does. -/
abbrev Action (α : Type) := Attempt interface α

/-- Looks an entry up. -/
def find (lookup : Lookup) : Action (Result (Option lookup.Entry)) :=
  Attempt.call (I := interface) (.find lookup)

/-- Asks whether the caller may act on a space. -/
def authorize (caller : Option Caller) (space : Uuid) : Action (Result Bool) :=
  Attempt.call (I := interface) (.authorize caller space)

/-- Fetches a policy, and a token to store it with. -/
def fetch (policyId : String) : Action (Result (Policy × ProtectionToken)) :=
  Attempt.call (I := interface) (.fetch policyId)

/-- Stores a policy. -/
def store (policy : Policy) (token : ProtectionToken) : Action (Result Unit) :=
  Attempt.call (I := interface) (.store policy token)

end Service

end Roster
