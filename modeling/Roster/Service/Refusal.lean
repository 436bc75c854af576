import Roster.Failure

/-!
# Refusals

Why the service itself turns a request down, each reason with its kind and its words.
-/

namespace Roster.Service

/-- Why a request is turned down. -/
inductive Refusal where
  /-- The text that should name a space is no identifier. -/
  | malformedSpace (text : String)
  /-- The text that should name an identity is no identifier. -/
  | malformedIdentity (text : String)
  /-- There is no such space. -/
  | unknownSpace
  /-- The space has no resource. -/
  | unknownResource
  /-- There is no such identity. -/
  | unknownIdentity
  /-- A member that the policy lists has no identity. -/
  | unknownMember
  /-- The owner of the space is among those to be removed. -/
  | ownerRemoved
  /-- The caller may not act on the space. -/
  | outsider
  deriving DecidableEq, Repr

namespace Refusal

/-- The kind of failure that a refusal is. -/
def kind : Refusal → FailureKind
  | malformedSpace _ => .badRequest
  | malformedIdentity _ => .badRequest
  | unknownSpace => .notFound
  | unknownResource => .notFound
  | unknownIdentity => .notFound
  | unknownMember => .serverError
  | ownerRemoved => .badRequest
  | outsider => .unauthorized

/-- The words of a refusal. -/
def message : Refusal → String
  | malformedSpace text => "Invalid space id: " ++ text
  | malformedIdentity text => "Invalid identity id: " ++ text
  | unknownSpace => "Space not found"
  | unknownResource => "Space resource not found"
  | unknownIdentity => "Identity not found"
  | unknownMember => "Identity listed in the space policy not found"
  | ownerRemoved => "Space owner can't be removed from the list of the space collaborators"
  | outsider => "User not among space collaborators"

/-- The failure that a refusal is. -/
def failure (r : Refusal) : Failure where
  kind := r.kind
  message := r.message

end Refusal

end Roster.Service
