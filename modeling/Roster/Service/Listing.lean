import Roster.Paging
import Roster.Service.Lookup

/-!
# Listing the members of a space

The members of a space are listed a page at a time. Only the members on the page are looked up, in
order, and one that cannot be found spoils the page; members on other pages do not matter. The total
counts all members of the list, also those that it names twice.
-/

namespace Roster

/-- The JSON value of the links around a page of the list at a path. -/
def PageLinks.toJson (path : String) (links : PageLinks) : Json :=
  let named (name : String) (r : PageRange) := (name, Json.string (r.link path))
  .object ([named "first" links.first] ++ (links.prev.map (named "prev")).toList ++
    (links.next.map (named "next")).toList ++ [named "last" links.last])

namespace Service

/-- A page of the members of a space. -/
structure Listing where
  /-- The identities of the members on the page. -/
  identities : List Identity
  /-- How many members there are on all pages. -/
  total : Nat
  /-- Where the list is asked for. -/
  path : String
  /-- The pages around this one. -/
  links : PageLinks

/-- The JSON value of a page. -/
def Listing.toJson (l : Listing) : Json :=
  .object [("data", .array (l.identities.map Identity.toJson)),
    ("meta", .object [("totalCount", .nat l.total)]), ("links", l.links.toJson l.path)]

/-- The members that the policy of a space lists. -/
def membersOf (space : Uuid) (policy : Policy) : Action (List Uuid) :=
  match policy.members with
  | .ok ids => pure ids
  | .error e => do
    Attempt.log
      { level := .error, message := "unable to decode the space policy members"
        fields := [("space_id", space.text), ("users", policy.config.users)] }
    throw e.failure

/-- The identity of a member. -/
def member (id : Uuid) : Action Identity :=
  entry .serverError (.identity id) do
    Attempt.log
      { level := .error, message := "unable to find the identity listed in the space policy"
        fields := [("identity_id", id.text)] }
    refuse .unknownMember

/-- A page of the members of a space. The path is where the list is asked for, and where its links
lead. -/
def list (space : String) (page : PageRequest) (path : String) : Action Listing := do
  let space ← readId .malformedSpace space
  let (policy, _) ← (fetchOf space).through "s:list_collaborators"
  let ids ← membersOf space policy
  let window := Window.of ids.length.toUInt64 page.start page.size
  let identities ← (window.items ids).mapM member
  return {
    identities
    total := ids.length
    path
    links := PageLinks.around identities.length.toUInt64 window.offset window.limit
      ids.length.toUInt64 }

end Service

end Roster
