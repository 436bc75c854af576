import Roster.Instant
import Roster.Json.Basic
import Roster.Uuid
import Roster.Failure

/-!
# The directory

What the service looks up and never changes: identities, spaces with their owners, and the policy
that lists the members of a space. A directory in memory holds one entry per key, the last one that
was put in.
-/

namespace Roster

/-- An identity, the account of somebody at some provider. -/
structure Identity where
  /-- The identifier. -/
  id : Uuid
  /-- When it was created. -/
  createdAt : Instant
  /-- When it was last changed. -/
  updatedAt : Instant
  /-- The name at the provider. -/
  username : String
  /-- The kind of provider. -/
  providerType : String
  /-- The user whose identity it is. -/
  userId : Option Uuid
  /-- The user's name. -/
  fullName : String
  /-- The user's address for mail. -/
  email : String
  /-- The user's company. -/
  company : String
  /-- The user's picture. -/
  imageUrl : String
  /-- What the user tells about themselves. -/
  bio : String
  /-- The user's page. -/
  url : String
  deriving DecidableEq

/-- The JSON value of an identity. -/
def Identity.toJson (i : Identity) : Json :=
  .object [("id", .string i.id.text), ("created_at", .string i.createdAt.text),
    ("updated_at", .string i.updatedAt.text), ("username", .string i.username),
    ("provider_type", .string i.providerType), ("user_id", .ofString? (i.userId.map Uuid.text)),
    ("full_name", .string i.fullName), ("email", .string i.email), ("company", .string i.company),
    ("image_url", .string i.imageUrl), ("bio", .string i.bio), ("url", .string i.url)]

/-- A space. -/
structure Space where
  /-- The identifier. -/
  id : Uuid
  /-- The identity that owns the space. -/
  ownerId : Uuid
  deriving DecidableEq

/-- The resource by which the policy server knows a space. -/
structure SpaceResource where
  /-- The space. -/
  spaceId : Uuid
  /-- The policy that lists the members of the space. -/
  policyId : String
  deriving DecidableEq

/-! ### Looking up -/

/-- Something that is looked up. -/
inductive Lookup where
  /-- The identity of an identifier. -/
  | identity (id : Uuid)
  /-- The space of an identifier. -/
  | space (id : Uuid)
  /-- The resource of a space. -/
  | resource (spaceId : Uuid)
  deriving DecidableEq

/-- What is found by looking something up. -/
@[reducible] def Lookup.Entry : Lookup → Type
  | identity _ => Identity
  | space _ => Space
  | resource _ => SpaceResource

/-- The entries that can be looked up. -/
structure Directory where
  /-- The identities. -/
  identities : List Identity := []
  /-- The spaces. -/
  spaces : List Space := []
  /-- The resources. -/
  resources : List SpaceResource := []

namespace Directory

/-- The entry of an identifier, if there is one. -/
def find? (d : Directory) : (l : Lookup) → Option l.Entry
  | .identity id => d.identities.find? (·.id = id)
  | .space id => d.spaces.find? (·.id = id)
  | .resource id => d.resources.find? (·.spaceId = id)

/-- Puts an identity in, in the place of an earlier one with its identifier. -/
def putIdentity (i : Identity) (d : Directory) : Directory :=
  { d with identities := i :: d.identities.filter (·.id ≠ i.id) }

/-- Puts a space in, in the place of an earlier one with its identifier. -/
def putSpace (s : Space) (d : Directory) : Directory :=
  { d with spaces := s :: d.spaces.filter (·.id ≠ s.id) }

/-- Puts a resource in, in the place of an earlier one of its space. -/
def putResource (r : SpaceResource) (d : Directory) : Directory :=
  { d with resources := r :: d.resources.filter (·.spaceId ≠ r.spaceId) }

/-- Drops the identity and the space of an identifier, and the resource of that space. -/
def forget (id : Uuid) (d : Directory) : Directory where
  identities := d.identities.filter (·.id ≠ id)
  spaces := d.spaces.filter (·.id ≠ id)
  resources := d.resources.filter (·.spaceId ≠ id)

end Directory

end Roster
