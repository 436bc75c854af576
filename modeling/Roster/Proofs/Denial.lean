import Roster.Proofs.Outcome

/-!
# What a denied caller is told

A caller who has no leave to act on a space is told so, and to ask for an addition tells nothing
else: the answer is the same whatever the directory and the policies are. A removal looks up the
owner of the space before it asks for leave. Its answer tells what is seen by that glimpse and
nothing else (`denied_told_iff`): whether the space is there, and whether its owner is among those to
be removed.

Without leave no policy is fetched, so the answer is the failure in `Oracle.clearance`, and that one
asks the directory about the space only. The three things that a glimpse can show are told apart by
their kinds of failure (`refusalOf_injective`).
-/

namespace Roster

open Service

/-- The backend with another directory and other policies. -/
def Backend.knowing (b : Backend) (directory : Directory) (policies : List (String × Policy)) :
    Backend :=
  { b with directory, store := { b.store with policies } }

@[simp] theorem Backend.faults_knowing (b : Backend) (directory : Directory)
    (policies : List (String × Policy)) : (b.knowing directory policies).faults = b.faults := rfl

/-- What a removal sees of a space before it asks for leave: whether the space is there, and if so,
whether the texts name its owner. -/
def Backend.glimpse (b : Backend) (space : Uuid) (texts : List String) : Option Bool :=
  (b.directory.find? (.space space)).map fun found : Space => namesOwner found texts

namespace Service

variable {o : Oracle} {b : Backend} {change : Change} {place text : String}
  {caller : Option Caller} {space : Uuid} {texts : List String} {f g : Failure}

/-- What a caller is told of a result: of a failure its kind and its message. -/
def told (r : Result Unit) : Except (FailureKind × String) Unit :=
  r.mapError fun f => (f.kind, f.message)

/-- Who has no leave is turned down as unauthorized. -/
theorem leaveOf_of_denied {answer : Result Bool} (h : answer ≠ .ok true) :
    ∃ f, leaveOf answer = .error f ∧ f.kind = .unauthorized := by
  -- An authorizer that fails turns the caller down as one that forbids does.
  rcases answer with f | _ | _
  · exact ⟨f.as .unauthorized, rfl, rfl⟩
  · exact ⟨Refusal.outsider.failure, rfl, rfl⟩
  · exact absurd rfl h

theorem locate_of_denied (hdenied : leaveOf (o.authorize caller space) = .error f) :
    o.locate caller space = .error f := by
  rw [Oracle.locate, hdenied]
  rfl

/-- A request that is not cleared fails with the reason. -/
theorem run_alter_of_error
    (h : b.oracle.clearance change place caller text texts = .error g) :
    (b.run (alter change place caller text texts)).value = .error g := by
  have hreduces : Program.settle b.oracle (alter change place caller text texts).run = _ :=
    alter_reduces change place caller text texts
  -- A request that is not cleared has a result once lookups and leave are settled.
  rw [h] at hreduces
  rw [Backend.run, ← (b.run_settle _).1, hreduces]
  rfl

/-- Why a caller without leave is turned down. A removal may fail before it asks for leave: the space
cannot be looked up, or a glimpse of it gives a reason. -/
def denial (change : Change) (fault : Option Failure) (f : Failure) (seen : Option Bool) : Failure :=
  match change, fault, seen with
  | .add, _, _ => f
  | .remove, some g, _ => g.as .notFound
  | .remove, none, none => Refusal.unknownSpace.failure
  | .remove, none, some true => Refusal.ownerRemoved.failure
  | .remove, none, some false => f

/-- The kinds tell apart what a removal has seen. -/
theorem denial_remove_injective (hf : f.kind = .unauthorized) :
    Function.Injective fun seen => (denial .remove none f seen).kind := by
  have hmissing : Refusal.unknownSpace.failure.kind = .notFound := rfl
  have howner : Refusal.ownerRemoved.failure.kind = .badRequest := rfl
  -- Missing spaces, owners and denials have three different kinds.
  rintro (_ | _ | _) (_ | _ | _) h <;> simp_all [denial]

/-- What a removal sees of the space either ends it or lets the denial through. -/
theorem removableOf_bind_denied :
    ((removableOf texts (b.oracle.find (.space space))).bind fun _ =>
        (.error f : Result SpaceResource)) =
      .error (denial .remove b.faults.space f (b.glimpse space texts)) := by
  have hfind : b.oracle.find (.space space) =
      Backend.failingWith b.faults.space (.ok (b.directory.find? (.space space))) := rfl
  rw [hfind, Backend.glimpse]
  -- A fault hides the space; without one, the space is there or it is not.
  cases b.faults.space with
  | some g => rfl
  | none =>
    cases b.directory.find? (.space space) with
    | none => rfl
    | some found =>
      show ((if namesOwner found texts then _ else _ : Result Unit).bind _) = _
      cases hnames : namesOwner found texts with
      | false => simp [denial, hnames, Except.bind]
      | true => simp [denial, hnames, Except.bind]

/-- A caller without leave gets no clearance. The reason depends on the directory by a glimpse of the
space only, if the request gets that far. -/
theorem clearance_of_denied (change : Change) (place text : String) (caller : Option Caller)
    (texts : List String)
    (hdenied : leaveOf (Backend.failingWith b.faults.authorize b.verdict) = .error f) :
    ∃ g, b.oracle.clearance change place caller text texts = .error g ∧
      told (.error g) = told ((idOf .malformedSpace text).bind fun space =>
        .error (denial change b.faults.space f (b.glimpse space texts))) := by
  have hlocate (space : Uuid) : b.oracle.locate caller space = .error f := locate_of_denied hdenied
  cases change with
  -- To add, the first thing that can fail behind the reading of the space is to ask for leave.
  | add =>
    rw [Oracle.clearance]
    -- A text that names no space is told apart before anything is looked up.
    cases hid : idOf .malformedSpace text with
    | error g => exact ⟨g.through place, rfl, rfl⟩
    | ok space =>
      have hleave : Result.through place (b.oracle.locate caller space) =
          .error (f.through place) := by
        rw [hlocate]
        rfl
      exact ⟨_, hleave, rfl⟩
  -- To remove, the space is looked at before.
  | remove =>
    rw [Oracle.clearance]
    cases hid : idOf .malformedSpace text with
    | error g => exact ⟨g, rfl, rfl⟩
    | ok space =>
      have hseen : Result.through place ((removableOf texts (b.oracle.find (.space space))).bind
            fun _ => b.oracle.locate caller space) =
          .error ((denial .remove b.faults.space f (b.glimpse space texts)).through place) := by
        -- The look at the space either ends it or lets the denial through, as was shown.
        rw [hlocate, removableOf_bind_denied]
        rfl
      exact ⟨_, hseen, rfl⟩

/-- What a caller without leave is told depends on the directory by a glimpse of the space only. -/
theorem told_alter_of_denied
    (hdenied : leaveOf (Backend.failingWith b.faults.authorize b.verdict) = .error f) :
    told (b.run (alter change place caller text texts)).value =
      told ((idOf .malformedSpace text).bind fun space =>
        .error (denial change b.faults.space f (b.glimpse space texts))) := by
  obtain ⟨g, hclearance, htold⟩ := clearance_of_denied change place text caller texts hdenied
  rw [run_alter_of_error hclearance]
  exact htold

/-- Denials sound alike if a removal that comes to look at the space has seen the same. -/
theorem told_denial_iff (hf : f.kind = .unauthorized) {fault : Option Failure}
    {seen seen' : Uuid → Option Bool} :
    told ((idOf .malformedSpace text).bind fun space => .error (denial change fault f (seen space))) =
        told ((idOf .malformedSpace text).bind fun space =>
          .error (denial change fault f (seen' space))) ↔
      ∀ space, change = .remove → Uuid.parse? text = some space → fault = none →
        seen space = seen' space := by
  constructor
  · -- What is told contains the kind, and the kinds tell apart what was seen.
    rintro htold space rfl hspace rfl
    rw [idOf_eq_ok.mpr hspace] at htold
    have hpair := Except.error.inj htold
    exact denial_remove_injective hf (congrArg Prod.fst hpair)
  · intro hseen
    cases hid : idOf .malformedSpace text with
    | error g => rfl
    | ok space =>
      refine congrArg (fun f : Failure => told (.error f)) ?_
      -- An addition sees nothing, and behind a fault a removal does not either.
      cases change with
      | add => rfl
      | remove =>
        cases fault with
        | some g => rfl
        | none => rw [hseen space rfl (idOf_eq_ok.mp hid) rfl]

/-- **What a denied caller learns.** Let two backends differ in directory and policies only, and
turn the caller away. What the caller is told of an addition is the same. What the caller is told of
a removal is the same if and only if both backends show the same glimpse of the space, provided that
the removal comes to look at it. -/
theorem denied_told_iff (b : Backend) (directory : Directory) (policies : List (String × Policy))
    (caller : Option Caller) (m : Mutation)
    (hdenied : Backend.failingWith b.faults.authorize b.verdict ≠ .ok true) :
    let other := b.knowing directory policies
    let first := told (b.run (m.perform caller)).value
    let second := told (other.run (m.perform caller)).value
    (m.change = .add → first = second) ∧
      (first = second ↔ ∀ space entries, m.change = .remove → Uuid.parse? m.space = some space →
        m.batch.data = some entries → b.faults.space = none →
          b.glimpse space (entries.filterMap id) = other.glimpse space (entries.filterMap id)) := by
  intro other first second
  obtain ⟨f, hleave, hkind⟩ := leaveOf_of_denied hdenied
  -- The first part follows from the second, as an addition never looks at the space.
  suffices hiff : first = second ↔ ∀ space entries, m.change = .remove →
      Uuid.parse? m.space = some space → m.batch.data = some entries → b.faults.space = none →
        b.glimpse space (entries.filterMap id) = other.glimpse space (entries.filterMap id) by
    refine ⟨fun hadd => hiff.mpr fun _ _ hremove => ?_, hiff⟩
    cases hadd.symm.trans hremove
  cases hdata : m.batch.data with
  -- A request that names no identities does nothing in either backend.
  | none =>
    have hnothing (b : Backend) : (b.run (m.perform caller)).value = .ok () := by
      rw [m.perform_eq, alterAll, hdata]
      rfl
    have hsame : first = second := congrArg told ((hnothing b).trans (hnothing other).symm)
    refine iff_of_true hsame fun _ _ _ _ hentries => ?_
    cases hentries
  | some entries =>
    have hperform : m.perform caller =
        alter m.change m.place caller m.space (entries.filterMap id) := by
      rw [m.perform_eq, alterAll, hdata]
    -- Leave does not depend on directory and policies, so both backends deny it for one reason.
    have hleave' : leaveOf (Backend.failingWith other.faults.authorize other.verdict) = .error f :=
      hleave
    show told (b.run (m.perform caller)).value = told (other.run (m.perform caller)).value ↔ _
    rw [hperform, told_alter_of_denied hleave, told_alter_of_denied hleave',
      Backend.faults_knowing, told_denial_iff hkind]
    simp

/-- A caller without leave is told whether there is the space to remove somebody from, so the answer
to a removal is not the same whatever the directory is. -/
theorem denied_removal_tells_space :
    ¬ ∀ (b : Backend) (directory : Directory) (policies : List (String × Policy))
      (caller : Option Caller) (m : Mutation),
      Backend.failingWith b.faults.authorize b.verdict ≠ .ok true →
        told (b.run (m.perform caller)).value =
          told ((b.knowing directory policies).run (m.perform caller)).value := by
  intro hall
  -- One directory has the space, the other one is empty.
  have hsame := hall { Backend.sample with verdict := .ok false } {} [] none
    (.remove (Uuid.uniform 0).text (Uuid.uniform 2).text) (by decide)
  revert hsame
  decide +kernel

/-- The answer to the removal of a guest is the same without resources, identities and policies, as
long as there is the space. -/
theorem denied_removal_tells_nothing_else :
    let b : Backend := { Backend.sample with verdict := .ok false }
    let other := b.knowing { spaces := b.directory.spaces } []
    let m : Mutation := .remove (Uuid.uniform 0).text (Uuid.uniform 2).text
    Backend.failingWith b.faults.authorize b.verdict ≠ .ok true ∧
      told (b.run (m.perform none)).value = told (other.run (m.perform none)).value :=
  ⟨by decide, (denied_told_iff _ _ [] none _ (by decide)).2.mpr fun _ _ _ _ _ _ => rfl⟩

end Service

end Roster
