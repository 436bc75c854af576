import Roster.Token.Claims
import Roster.Token.Compact

/-!
# Granted permissions

The policy server answers a request for an entitlement with a token that lists permissions on
resources. It comes straight from the server, so its signature, times and audiences are not looked
at; only its header and claims have to be readable.
-/

namespace Roster.Token

open Json

/-- A permission on a resource, which is named in one of two ways. -/
structure Permission where
  /-- The name of the resource. -/
  name : Option String := none
  /-- The identifier of the resource. -/
  id : Option String := none
  deriving DecidableEq, Repr

/-- The permissions that a token grants. -/
structure Grant where
  /-- The permissions. -/
  permissions : List Permission
  deriving DecidableEq, Repr

namespace Grant

/-- A permission as it is read. -/
structure Draft where
  /-- The name, once it is read. -/
  name : Option (Option String) := none
  /-- The identifier, once it is read. -/
  id : Option (Option String) := none

/-- Reads a permission. -/
def permission : Shape Permission :=
  Shape.Record.shape
    { slots := [
        ⟨"resource_set_name", fun draft => draft.name.isSome, fun draft d =>
          (Shape.optional .text d).map fun name => { draft with name := some name }⟩,
        ⟨"resource_set_id", fun draft => draft.id.isSome, fun draft d =>
          (Shape.optional .text d).map fun id => { draft with id := some id }⟩]
      start := ({} : Draft)
      finish := fun draft => some ⟨draft.name.getD none, draft.id.getD none⟩ }

/-- Reads the permissions of an authorization; there are none if they are missing. -/
def authorization : Shape (List Permission) :=
  Shape.Record.shape
    { slots := [⟨"permissions", Option.isSome, fun _ d => (Shape.list permission d).map some⟩]
      start := (none : Option (List Permission))
      finish := fun permissions => some (permissions.getD []) }

/-- Reads what claims grant; nothing if they hold no authorization. -/
def shape : Shape Grant := fun d =>
  ((Shape.Record.defaulted "authorization" authorization).shape d).map fun permissions =>
    ⟨permissions.getD []⟩

/-- What a token grants. -/
def ofToken? (token : String) : Option Grant := do
  let t ← Compact.parse? token
  let _ ← t.header?
  let grant ← Compact.read? shape t.claims
  let _ ← Compact.read? Claims.shape t.claims
  return grant

/-- Whether a resource is among those that permissions are granted on. -/
def covers (resource : String) (g : Grant) : Bool :=
  g.permissions.any fun p => p.name = some resource || p.id = some resource

end Grant

end Roster.Token
