import Roster.MemberList
import Roster.Json.Embedded

/-!
# Space policies

The members of a space are listed in a policy, a JSON document kept by the policy server. The
service reads a handful of its members and changes one of them, the member list; all others, also
those it knows nothing about, are written back as they were read.

A policy is read from a JSON object. A member that the service knows may stand there once, and a
text that is missing is empty; of other members with one name the last counts.
-/

namespace Roster

/-- The part of a policy that holds the member list. -/
structure PolicyConfig where
  /-- The text of the member list. -/
  users : String
  /-- The other members, with distinct names. -/
  attributes : List (String × Json)

/-- A policy that lists the members of a space. -/
structure Policy where
  /-- The identifier at the policy server. -/
  id : Option String
  /-- The name. -/
  name : String
  /-- The type of policy. -/
  type : String
  /-- Whether the policy grants or denies. -/
  logic : String
  /-- How decisions are combined. -/
  decisionStrategy : String
  /-- The part with the member list. -/
  config : PolicyConfig
  /-- The other members, with distinct names. -/
  attributes : List (String × Json)

/-- The token that a policy was fetched with, which writing it back needs. -/
structure ProtectionToken where
  /-- The token itself. -/
  text : String
  deriving DecidableEq, Repr

/-- What a token shows of itself where it could be read by others. -/
def ProtectionToken.redacted (_ : ProtectionToken) : String :=
  "ProtectionToken(***)"

/-! ### Reading -/

namespace Policy

/-- The names of the members that the service knows in the part with the member list. -/
def configNames : List String := ["users"]

/-- The names of the members that the service knows in a policy. -/
def names : List String := ["id", "name", "type", "logic", "decisionStrategy", "config"]

/-- The text of a member, empty if the member is missing. -/
def text? (members : List (String × Json)) (name : String) : Option String := do
  match ← Json.only? members name with
  | none => some ""
  | some (.string s) => some s
  | some _ => none

/-- The members with other names than the known ones, the last of each name, with all texts that are
embedded in their values read. -/
def others? (known : List String) (members : List (String × Json)) :
    Option (List (String × Json)) :=
  (Json.expandMembers Json.ofEmbeddedText? (members.filter fun m => !known.contains m.1)).map
    fun members => Json.lastOfEach (Json.settleMembers members)

/-- The identifier among the members of a policy: a text, or nothing. -/
def id? (members : List (String × Json)) : Option (Option String) := do
  match ← Json.only? members "id" with
  | none => some none
  | some .null => some none
  | some (.string s) => some (some s)
  | some _ => none

/-- Reads the part with the member list. -/
def config? (members : List (String × Json)) : Option PolicyConfig := do
  match ← Json.only? members "config" with
  | none => some ⟨"", []⟩
  | some (.object members) => do
    let users ← text? members "users"
    return ⟨users, ← others? configNames members⟩
  | some _ => none

/-- Reads a policy from a JSON value. -/
def ofJson? : Json → Option Policy
  | .object members => do
    let id ← id? members
    let name ← text? members "name"
    let type ← text? members "type"
    let logic ← text? members "logic"
    let decisionStrategy ← text? members "decisionStrategy"
    let config ← config? members
    let attributes ← others? names members
    return { id, name, type, logic, decisionStrategy, config, attributes }
  | _ => none

/-- Reads a policy from the bytes of its JSON text. -/
def ofBytes? (bytes : Text.Bytes) : Option Policy :=
  (Json.ofBytes? bytes).bind ofJson?

/-! ### Writing -/

/-- The JSON value of the part with the member list. -/
def configJson (c : PolicyConfig) : Json :=
  .object (("users", .string c.users) :: c.attributes)

/-- The JSON value of a policy. A policy without an identifier has no member for it. -/
def toJson (p : Policy) : Json :=
  .object (p.id.toList.map (fun id => ("id", Json.string id)) ++
    [("name", .string p.name), ("type", .string p.type), ("logic", .string p.logic),
      ("decisionStrategy", .string p.decisionStrategy), ("config", configJson p.config)] ++
    p.attributes)

/-! ### Members -/

/-- The members that a policy lists. -/
def members (p : Policy) : Except MemberList.Invalid (List Uuid) :=
  MemberList.decode p.config.users

/-- The policy with another text for its member list. -/
def withUsers (users : String) (p : Policy) : Policy :=
  { p with config := { p.config with users } }

/-- The policy with other members. -/
def withMembers (ids : List Uuid) (p : Policy) : Policy :=
  p.withUsers (MemberList.encode ids)

@[simp] theorem users_withUsers (users : String) (p : Policy) :
    (p.withUsers users).config.users = users := rfl

@[simp] theorem withUsers_withUsers (users users' : String) (p : Policy) :
    (p.withUsers users).withUsers users' = p.withUsers users' := rfl

@[simp] theorem withUsers_self (p : Policy) : p.withUsers p.config.users = p := rfl

@[simp] theorem id_withUsers (users : String) (p : Policy) : (p.withUsers users).id = p.id := rfl

end Policy

/-! ### Changes -/

/-- A change of a policy's members by one identity. -/
inductive Change where
  /-- The identity becomes a member. -/
  | add
  /-- The identity is no member any more. -/
  | remove
  deriving DecidableEq, Repr

namespace Change

/-- The name of a change in the log. -/
def name : Change → String
  | add => "AddMember"
  | remove => "RemoveMember"

/-- A member list after a change: a new member goes to the end, a removed one goes in every place.
-/
def members (c : Change) (id : Uuid) (ids : List Uuid) : List Uuid :=
  match c with
  | add => if id ∈ ids then ids else ids ++ [id]
  | remove => ids.filter (· ≠ id)

/-- Whether a change makes a difference to a member list. -/
def matters (c : Change) (id : Uuid) (ids : List Uuid) : Bool :=
  match c with
  | add => !ids.contains id
  | remove => ids.contains id

/-- Changes a policy, and tells whether that made a difference. A policy to which it makes none
keeps its text as it is. -/
def apply (c : Change) (id : Uuid) (p : Policy) : Except MemberList.Invalid (Policy × Bool) :=
  p.members.map fun ids =>
    if c.matters id ids then (p.withMembers (c.members id ids), true) else (p, false)

end Change

end Roster
