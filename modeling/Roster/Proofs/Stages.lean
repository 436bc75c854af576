import Roster.Proofs.Effect

/-!
# What a request fails at

A request goes through stages in a fixed order: texts are read, calls are made, and what they are
answered with is checked. Each stage has one kind of failure, and its message comes from the call
that failed or names what is missing (`Stage.kind`, `Stage.message?`). Which stages a request has and
whether something is wrong at a stage depends on the directory, on the policy as it is before the
request, and on the faults of the calls, but not on how far the request gets.

Every call may meet faults of its own: they are given by a plan, by the number of the call. What a
caller is told if the first stage where something is wrong decides is `firstComplaint`.
-/

namespace Roster

open Service

/-! ### Stages -/

/-- What a caller is told of a failure: its kind and its message. -/
def complaint {α : Type} : Result α → Option (FailureKind × String)
  | .ok _ => none
  | .error f => some (f.kind, f.message)

namespace Service

/-- Something that a request may fail at, with the texts that it is about. A call is given with its
number, which is how many calls the request makes before it. -/
inductive Stage where
  /-- The text of the space is read. -/
  | spaceText (text : String)
  /-- The space is looked up. -/
  | space (n : Nat) (text : String)
  /-- The owner of the space is looked for among the identities. -/
  | owner (text : String) (texts : List String)
  /-- The caller's leave is asked for. -/
  | leave (n : Nat)
  /-- The resource of the space is looked up. -/
  | resource (n : Nat) (text : String)
  /-- The policy of the space is fetched. -/
  | fetch (n : Nat) (text : String)
  /-- The text of an identity is read. -/
  | identityText (text : String)
  /-- The identity of a text is looked up. -/
  | identity (n : Nat) (text : String)
  /-- The member list of the space is read. -/
  | memberList (text : String)
  /-- A member is looked up. -/
  | member (n : Nat) (id : Uuid)
  /-- The policy of the space is stored, if the changes make a difference. -/
  | store (n : Nat) (change : Change) (text : String) (texts : List String)

/-- The kind of failure at a stage. -/
def Stage.kind : Stage → FailureKind
  | spaceText _ => .badRequest
  | space _ _ => .notFound
  | owner _ _ => .badRequest
  | leave _ => .unauthorized
  | resource _ _ => .notFound
  | fetch _ _ => .serverError
  | identityText _ => .badRequest
  | identity _ _ => .notFound
  | memberList _ => .serverError
  | member _ _ => .serverError
  | store _ _ _ _ => .serverError

/-- The message of the fault that a call meets; without one, what else is wrong. -/
def faultOr (fault : Option Failure) (otherwise : Option String) : Option String :=
  (fault.map (·.message)).or otherwise

/-- The message of a refusal, if something is not there. -/
def ifMissing {α : Type} (found : Option α) (missing : String) : Option String :=
  if found.isNone then some missing else none

/-- What is wrong with a policy's member list. -/
def unreadable? (policy : Policy) : Option String :=
  match policy.members with
  | .ok _ => none
  | .error e => some e.failure.message

/-- What is wrong with the answer to whether a caller has leave. -/
def denied? : Result Bool → Option String
  | .ok true => none
  | .ok false => some Refusal.outsider.message
  | .error f => some f.message

/-- Whether changes make a difference to a policy's member list. -/
def differs (change : Change) (texts : List String) (policy : Policy) : Bool :=
  match policy.members with
  | .ok ids => change.netMembers (texts.filterMap Uuid.parse?) ids ≠ ids
  | .error _ => false

/-- The space that a text names. -/
def spaceOf? (b : Backend) (text : String) : Option Space :=
  (Uuid.parse? text).bind fun id => b.directory.find? (.space id)

/-- The resource of the space that a text names. -/
def resourceOf? (b : Backend) (text : String) : Option SpaceResource :=
  (Uuid.parse? text).bind fun id => b.directory.find? (.resource id)

/-- The identity that a text names. -/
def identityOf? (b : Backend) (text : String) : Option Identity :=
  (Uuid.parse? text).bind fun id => b.directory.find? (.identity id)

section

variable (b : Backend) (plan : Nat → Faults)

/-- What is wrong at a stage, if something is: the message of the failure. -/
def Stage.message? : Stage → Option String
  | spaceText text => ifMissing (Uuid.parse? text) (Refusal.malformedSpace text).message
  | space n text =>
    faultOr (plan n).space <| ifMissing (spaceOf? b text) Refusal.unknownSpace.message
  | owner text texts =>
    if (spaceOf? b text).any (namesOwner · texts) then some Refusal.ownerRemoved.message else none
  | leave n => faultOr (plan n).authorize (denied? b.verdict)
  | resource n text =>
    faultOr (plan n).resource <| ifMissing (resourceOf? b text) Refusal.unknownResource.message
  | fetch n text =>
    faultOr (plan n).fetch <| ifMissing (b.policyOf? text) PolicyStore.unknownPolicy.message
  | identityText text => ifMissing (Uuid.parse? text) (Refusal.malformedIdentity text).message
  | identity n text =>
    faultOr (plan n).identity <| ifMissing (identityOf? b text) Refusal.unknownIdentity.message
  | memberList text => (b.policyOf? text).bind unreadable?
  | member n id =>
    faultOr (plan n).identity <|
      ifMissing (b.directory.find? (.identity id)) Refusal.unknownMember.message
  | store n change text texts =>
    if (b.policyOf? text).any (differs change texts) then
      faultOr (plan n).store <|
        if b.store.lagging then some PolicyStore.outdatedToken.message else none
    else none

/-- What a caller is told if something is wrong at a stage. -/
def Stage.complaint? (stage : Stage) : Option (FailureKind × String) :=
  (stage.message? b plan).map (stage.kind, ·)

/-- What a caller is told if the first stage where something is wrong decides. -/
def firstComplaint (stages : List Stage) : Option (FailureKind × String) :=
  stages.findSome? (Stage.complaint? b plan)

end

/-! ### The stages of requests -/

/-- The stages of changing a policy by identities, of which the first is looked up by the call of a
number. -/
def changeStages (text : String) (texts : List String) (n : Nat) : List Stage :=
  (texts.zipIdx n).flatMap fun (identity, n) =>
    [.identityText identity, .identity n identity, .memberList text]

/-- The stages from asking for leave to storing the policy. -/
def updateStages (change : Change) (text : String) (texts : List String) (n : Nat) : List Stage :=
  .leave n :: .resource (n + 1) text :: .fetch (n + 2) text ::
    (changeStages text texts (n + 3) ++ [.store (n + 3 + texts.length) change text texts])

/-- The stages of a request to change the members of a space. -/
def alterStages (text : String) (texts : List String) : Change → List Stage
  | .add => .spaceText text :: updateStages .add text texts 0
  | .remove => .spaceText text :: .space 0 text :: .owner text texts ::
      updateStages .remove text texts 1

/-- The members of the space that a text names that are on a page. -/
def membersOn (b : Backend) (text : String) (page : PageRequest) : List Uuid :=
  match (b.policyOf? text).map Policy.members with
  | some (.ok ids) => (Window.of ids.length.toUInt64 page.start page.size).items ids
  | _ => []

/-- The stages of a request. One that names no identities at all has none. -/
def Request.stages (b : Backend) : Request → List Stage
  | list text page _ => .spaceText text :: .resource 0 text :: .fetch 1 text :: .memberList text ::
      ((membersOn b text page).zipIdx 2).map fun (id, n) => .member n id
  | change _ m =>
    match m.batch.data with
    | none => []
    | some entries => alterStages m.space (entries.filterMap id) m.change

end Service

end Roster
