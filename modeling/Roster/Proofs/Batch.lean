import Roster.Proofs.Outcome
import Roster.Proofs.Serial

/-!
# A batch is its identities one by one

To change members by the identities of a batch comes to the same as to change them by one identity
after another: the batch succeeds if and only if each of them does on what the ones before left, and
then the policies are the same in the end (`batch_eq_singles`).

The one request fetches, changes and stores once, the others do so each time. But a policy that is
stored is fetched again as it was stored, under the name it was fetched by, and one that was not
changed need not be stored; so what a row of identities commits is what its first one commits and
then the rest (`Backend.commits_cons`). Both sides follow from that by induction on the row.
-/

namespace Roster

open Service

namespace Service.Mutation

/-- The request to change the members of a space by the identities of a batch. -/
def ofBatch (change : Change) (space : String) (batch : IdentityBatch) : Mutation :=
  match change with
  | .add => .addAll space batch
  | .remove => .removeAll space batch

/-- The request to change the members of a space by one identity. -/
def ofOne (change : Change) (space identity : String) : Mutation :=
  match change with
  | .add => .add space identity
  | .remove => .remove space identity

end Service.Mutation

/-! ### Policies put twice -/

theorem PolicyStore.putIn_putIn (name : String) (first second : Policy)
    (policies : List (String × Policy)) :
    putIn name second (putIn name first policies) = putIn name second policies := by
  induction policies with
  | nil => simp [putIn]
  | cons entry rest ih =>
    obtain ⟨other, policy⟩ := entry
    by_cases h : other = name
    · simp [putIn, h]
    · simp [putIn, h, ih]

/-- A policy that was fetched by its name is found there as it was left: changed, or as it was. -/
theorem PolicyStore.lookup_putOwn {before : List (String × Policy)} {name : String}
    {fetched changed : Policy} {differs : Bool} (hnames : KeepsNames before)
    (hfetched : before.lookup name = some fetched) (hname : nameOf changed = nameOf fetched)
    (hsame : differs = false → changed = fetched) :
    (putOwn (if differs then some changed else none) before).lookup name = some changed := by
  -- Either nothing was put, and the policy found is the one fetched, or the changed one was.
  cases differs with
  | false =>
    rw [hsame rfl]
    exact hfetched
  | true =>
    have hown : nameOf changed = name := hname.trans (hnames _ _ hfetched)
    exact (lookup_putIn _ _ changed before).trans (if_pos hown.symm)

/-! ### Rows of identities -/

variable {o : Oracle} {b : Backend} {change : Change} {caller : Option Caller} {text space : String}
  {texts : List String} {resource : SpaceResource} {p q : Policy}
  {before after : List (String × Policy)}

/-- A change that makes no difference leaves the policy as it is. -/
theorem Change.eq_of_apply {c : Change} {id : Uuid} (h : c.apply id p = .ok (q, false)) :
    q = p := by
  cases hids : p.members with
  | error e =>
    rw [apply, hids] at h
    cases h
  | ok ids =>
    rw [apply, hids] at h
    cases hm : c.matters id ids <;> simp_all [Except.map]

namespace Oracle

/-- What one more identity does to a policy: it is looked up and found, and the policy is changed.
-/
theorem changes_cons_iff {flag differs : Bool} :
    o.changes change (text :: texts) (p, flag) = .ok (q, differs) ↔
      ∃ id identity middle first, Uuid.parse? text = some id ∧
        o.find (.identity id) = .ok (some identity) ∧ change.apply id p = .ok (middle, first) ∧
        o.changes change texts (middle, flag || first) = .ok (q, differs) := by
  simp only [changes, bind_eq_ok, idOf_eq_ok, entryOf_eq_ok, mapError_eq_ok]
  constructor
  · rintro ⟨id, hid, identity, hidentity, ⟨middle, first⟩, happly, hrest⟩
    exact ⟨id, identity, middle, first, hid, hidentity, happly, hrest⟩
  · rintro ⟨id, identity, middle, first, hid, hidentity, happly, hrest⟩
    exact ⟨id, hid, identity, hidentity, (middle, first), happly, hrest⟩

/-- Whether changes before made a difference does not matter to further ones. -/
theorem changes_flag {flag differs : Bool} :
    o.changes change texts (p, flag) = .ok (q, differs) ↔
      ∃ later, o.changes change texts (p, false) = .ok (q, later) ∧ differs = (flag || later) := by
  -- Induction on the row, with any flag in front: each identity may raise it for those behind.
  induction texts generalizing p flag differs with
  | nil =>
    simp only [changes, Except.ok.injEq, Prod.mk.injEq]
    constructor
    · rintro ⟨rfl, rfl⟩
      exact ⟨false, ⟨rfl, rfl⟩, (Bool.or_false flag).symm⟩
    · rintro ⟨_, ⟨rfl, rfl⟩, rfl⟩
      exact ⟨rfl, (Bool.or_false flag).symm⟩
  | cons text rest ih =>
    simp only [changes_cons_iff]
    constructor
    · rintro ⟨id, identity, middle, first, hid, hidentity, happly, hrest⟩
      obtain ⟨later, hlater, rfl⟩ := ih.mp hrest
      -- The first identity of the row adds to the flag in front and to the one behind.
      have hfirst : o.changes change rest (middle, false || first) = .ok (q, first || later) :=
        ih.mpr ⟨later, hlater, rfl⟩
      exact ⟨first || later, ⟨id, identity, middle, first, hid, hidentity, happly, hfirst⟩,
        Bool.or_assoc flag first later⟩
    · rintro ⟨_, ⟨id, identity, middle, first, hid, hidentity, happly, hrest⟩, rfl⟩
      obtain ⟨later, hlater, rfl⟩ := ih.mp hrest
      have hboth : (flag || (false || first || later)) = (flag || first || later) := by
        rw [Bool.false_or, Bool.or_assoc]
      rw [hboth]
      exact ⟨id, identity, middle, first, hid, hidentity, happly, ih.mpr ⟨later, hlater, rfl⟩⟩

/-- A row of identities does what its first one does and then the rest. -/
theorem changes_cons {differs : Bool} :
    o.changes change (text :: texts) (p, false) = .ok (q, differs) ↔
      ∃ middle first later, o.changes change [text] (p, false) = .ok (middle, first) ∧
        o.changes change texts (middle, false) = .ok (q, later) ∧ differs = (first || later) := by
  -- A row of one identity is that identity, with nothing in front or behind to raise the flag.
  have hone {middle : Policy} {first : Bool} :
      o.changes change [text] (p, false) = .ok (middle, first) ↔
        ∃ id identity, Uuid.parse? text = some id ∧
          o.find (.identity id) = .ok (some identity) ∧
          change.apply id p = .ok (middle, first) := by
    rw [changes_cons_iff]
    simp only [changes, Except.ok.injEq, Prod.mk.injEq, Bool.false_or]
    constructor
    · rintro ⟨id, identity, _, _, hid, hidentity, happly, rfl, rfl⟩
      exact ⟨id, identity, hid, hidentity, happly⟩
    · rintro ⟨id, identity, hid, hidentity, happly⟩
      exact ⟨id, identity, middle, first, hid, hidentity, happly, rfl, rfl⟩
  rw [changes_cons_iff]
  constructor
  · rintro ⟨id, identity, middle, first, hid, hidentity, happly, hrest⟩
    obtain ⟨later, hlater, rfl⟩ := changes_flag.mp hrest
    exact ⟨middle, first, later, hone.mpr ⟨id, identity, hid, hidentity, happly⟩, hlater, rfl⟩
  · rintro ⟨middle, first, later, hfirst, hlater, rfl⟩
    obtain ⟨id, identity, hid, hidentity, happly⟩ := hone.mp hfirst
    exact ⟨id, identity, middle, first, hid, hidentity, happly,
      changes_flag.mpr ⟨later, hlater, rfl⟩⟩

/-- Changes leave the name of the policy, and all of it if they make no difference. -/
theorem changes_keep {differs : Bool}
    (h : o.changes change texts (p, false) = .ok (q, differs)) :
    PolicyStore.nameOf q = PolicyStore.nameOf p ∧ (differs = false → q = p) := by
  induction texts generalizing p differs with
  | nil =>
    cases h
    exact ⟨rfl, fun _ => rfl⟩
  | cons text rest ih =>
    obtain ⟨id, _, middle, first, -, -, happly, hrest⟩ := changes_cons_iff.mp h
    obtain ⟨later, hlater, rfl⟩ := changes_flag.mp hrest
    obtain ⟨hname, hsame⟩ := ih hlater
    -- A change that counts alters the member list alone, so the name stays.
    obtain ⟨-, -, -, users, rfl⟩ := Change.apply_eq_ok happly
    constructor
    · exact hname
    · intro hnone
      -- No difference in the end means that none of the changes made one.
      obtain ⟨rfl, rfl⟩ : first = false ∧ later = false := by simpa using hnone
      rw [hsame rfl, Change.eq_of_apply happly]

/-- A row is cleared if its first one is and the rest is. -/
theorem clears_cons :
    o.Clears change caller space (text :: texts) resource ↔
      o.Clears change caller space [text] resource ∧
        o.Clears change caller space texts resource := by
  -- A row is free of the owner's name if its first text is and the others are.
  have hremovable (answer : Result (Option Space)) :
      removableOf (text :: texts) answer = .ok () ↔
        removableOf [text] answer = .ok () ∧ removableOf texts answer = .ok () := by
    simp only [removableOf_eq_ok, namesOwner, List.any_cons, List.any_nil, Bool.or_false,
      Bool.or_eq_false_iff]
    constructor
    · rintro ⟨found, rfl, hfirst, hrest⟩
      exact ⟨⟨found, rfl, hfirst⟩, found, rfl, hrest⟩
    · rintro ⟨⟨found, rfl, hfirst⟩, _, hsame, hrest⟩
      cases hsame
      exact ⟨found, rfl, hfirst, hrest⟩
  simp only [Clears, hremovable]
  constructor
  · rintro ⟨id, hid, hkept, hlocate⟩
    exact ⟨⟨id, hid, fun h => (hkept h).1, hlocate⟩, id, hid, fun h => (hkept h).2, hlocate⟩
  · rintro ⟨⟨id, hid, hfirst, hlocate⟩, other, hother, hrest, -⟩
    -- Both parts read the same text of the space.
    obtain rfl : id = other := Option.some.inj (hid.symm.trans hother)
    exact ⟨id, hid, fun h => ⟨hfirst h, hrest h⟩, hlocate⟩

theorem Clears.unique {resource' : SpaceResource} {texts' : List String}
    (h : o.Clears change caller space texts resource)
    (h' : o.Clears change caller space texts' resource') : resource = resource' := by
  obtain ⟨id, hid, -, hlocate⟩ := h
  obtain ⟨other, hother, -, hlocate'⟩ := h'
  obtain rfl : id = other := Option.some.inj (hid.symm.trans hother)
  exact Except.ok.inj (hlocate.symm.trans hlocate')

end Oracle

/-- A row commits what its first identity commits and then the rest. -/
theorem Backend.commits_cons (hnames : KeepsNames before) :
    b.Commits change caller space (text :: texts) before after ↔
      ∃ middle, b.Commits change caller space [text] before middle ∧
        b.Commits change caller space texts middle after := by
  -- What is stored after the first identity is fetched for the next one.
  have hmiddle {resource : SpaceResource} {fetched policy : Policy} {first : Bool}
      (hfetched : before.lookup resource.policyId = some fetched)
      (hchanges : b.oracle.changes change [text] (fetched, false) = .ok (policy, first)) :
      (PolicyStore.putOwn (if first then some policy else none) before).lookup resource.policyId =
        some policy := by
    obtain ⟨hname, hsame⟩ := Oracle.changes_keep hchanges
    exact PolicyStore.lookup_putOwn hnames hfetched hname hsame
  -- Only the last policy that is stored counts.
  have hlast {policy policy' : Policy} {first later : Bool}
      (hname : PolicyStore.nameOf policy' = PolicyStore.nameOf policy)
      (hsame : later = false → policy' = policy) :
      PolicyStore.putOwn (if first || later then some policy' else none) before =
        PolicyStore.putOwn (if later then some policy' else none)
          (PolicyStore.putOwn (if first then some policy else none) before) := by
    cases later with
    | false =>
      rw [hsame rfl, Bool.or_false]
      rfl
    | true =>
      cases first with
      | false => rfl
      | true =>
        show PolicyStore.putIn _ policy' before =
          PolicyStore.putIn _ policy' (PolicyStore.putIn _ policy before)
        rw [hname, PolicyStore.putIn_putIn]
  constructor
  · rintro ⟨hfetch, resource, fetched, changed, differs, hclears, hfetched, hchanges, hmay, rfl⟩
    obtain ⟨hclear, hclears⟩ := Oracle.clears_cons.mp hclears
    obtain ⟨middle, first, later, hfirst, hlater, rfl⟩ := Oracle.changes_cons.mp hchanges
    obtain ⟨hname, hsame⟩ := Oracle.changes_keep hlater
    have hmayFirst (h : first = true) : b.MayStore := hmay (by simp [h])
    have hmayLater (h : later = true) : b.MayStore := hmay (by simp [h])
    have hone : b.Commits change caller space [text] before _ :=
      ⟨hfetch, resource, fetched, middle, first, hclear, hfetched, hfirst, hmayFirst, rfl⟩
    have hrest : b.Commits change caller space texts _ _ :=
      ⟨hfetch, resource, middle, changed, later, hclears, hmiddle hfetched hfirst, hlater, hmayLater,
        hlast hname hsame⟩
    exact ⟨_, hone, hrest⟩
  · rintro ⟨_, ⟨hfetch, resource, fetched, middle, first, hclear, hfetched, hfirst, hmay, rfl⟩,
      -, other, again, changed, later, hclears, hagain, hlater, hmay', rfl⟩
    -- Both fetch the policy of the same resource, so the rest takes it up as the first one left it.
    obtain rfl := hclear.unique hclears
    obtain rfl : middle = again := Option.some.inj ((hmiddle hfetched hfirst).symm.trans hagain)
    obtain ⟨hname, hsame⟩ := Oracle.changes_keep hlater
    have hchanges : b.oracle.changes change (text :: texts) (fetched, false) =
        .ok (changed, first || later) :=
      Oracle.changes_cons.mpr ⟨middle, first, later, hfirst, hlater, rfl⟩
    have hmayBoth (h : (first || later) = true) : b.MayStore :=
      (Bool.or_eq_true_iff.mp h).elim hmay hmay'
    exact ⟨hfetch, resource, fetched, changed, first || later,
      Oracle.clears_cons.mpr ⟨hclear, hclears⟩, hfetched, hchanges, hmayBoth,
      (hlast hname hsame).symm⟩

theorem Backend.Commits.keepsNames (h : b.Commits change caller space texts before after)
    (hnames : KeepsNames before) : KeepsNames after := by
  obtain ⟨-, _, _, changed, differs, -, -, -, -, rfl⟩ := h
  cases differs with
  | false => exact hnames
  | true => exact hnames.putIn changed

/-! ### Requests one after another -/

/-- A request to change members answers with nothing and leaves what its mutation leaves. -/
theorem Service.Request.run_change {σ : Type} (handler : Handler interface σ) (s : σ)
    (caller : Option Caller) (m : Mutation) :
    ((Request.change caller m).perform.run.run handler s).value =
        ((m.perform caller).run.run handler s).value.map (fun _ => none) ∧
      ((Request.change caller m).perform.run.run handler s).state =
        ((m.perform caller).run.run handler s).state := by
  have hperform : (Request.change caller m).perform.run =
      (m.perform caller).run >>= fun r => pure (r.map fun _ => none) := by
    rw [Request.perform, ExceptT.run_map, ← bind_pure_comp]
  rw [hperform, Program.run_bind]
  exact ⟨rfl, rfl⟩

/-- The request to change members by one identity succeeds, and leaves policies, if and only if the
identity commits these. -/
theorem commits_single :
    let single := (Request.change caller (.ofOne change space text)).perform.run.run Backend.answer b
    ((∃ value, single.value = .ok value) ∧ single.state.store.policies = after) ↔
      b.Commits change caller space [text] b.store.policies after := by
  intro single
  let m : Mutation := .ofOne change space text
  obtain ⟨hvalue, hstate⟩ := Request.run_change Backend.answer b caller m
  have hcommits : ((b.run (m.perform caller)).value = .ok () ∧
        (b.run (m.perform caller)).state.store.policies = after) ↔
      b.Commits change caller space [text] b.store.policies after := by
    cases change with
    | add => exact Backend.commits_perform (m := .add space text) rfl
    | remove => exact Backend.commits_perform (m := .remove space text) rfl
  have hok : (∃ value, single.value = .ok value) ↔ (b.run (m.perform caller)).value = .ok () := by
    rw [hvalue, Backend.run]
    cases ((m.perform caller).run.run Backend.answer b).value with
    | error f => simp [Except.map]
    | ok _ => simp [Except.map]
  rw [← hcommits, hok, hstate, Backend.run]

/-- Requests by one identity each all succeed in a row, and leave policies in the end, if and only if
the row of identities commits these. -/
theorem commits_singles (hnames : KeepsNames b.store.policies) (hne : texts ≠ []) :
    let singles := performEach Backend.answer
      (texts.map fun text => .change caller (.ofOne change space text)) b
    ((∀ result ∈ singles.1, ∃ value, result = .ok value) ∧ singles.2.store.policies = after) ↔
      b.Commits change caller space texts b.store.policies after := by
  -- Induction on the row, from any backend: each request starts from what the one before has left.
  induction texts generalizing b after with
  | nil => exact absurd rfl hne
  | cons text rest ih =>
    intro singles
    let first := (Request.change caller (.ofOne change space text)).perform.run.run Backend.answer b
    let others := performEach Backend.answer
      (rest.map fun text => .change caller (.ofOne change space text)) first.state
    have hsingles : singles = (first.value :: others.1, others.2) := rfl
    rw [hsingles, List.forall_mem_cons, and_assoc]
    by_cases hrest : rest = []
    -- An empty rest makes no request, while a request by no identities would still ask for leave.
    · subst hrest
      have hnone : others = ([], first.state) := rfl
      rw [hnone]
      refine Iff.trans ?_ commits_single
      exact and_congr_right fun _ => and_iff_right (List.forall_mem_nil _)
    -- What the first request leaves differs from the backend in policies and tokens only.
    obtain ⟨policies, issued, hstate⟩ := Backend.exists_holding_run
      (Request.change caller (.ofOne change space text)).perform.run b
    have hsame (before after : List (String × Policy)) :
        first.state.Commits change caller space rest before after ↔
          b.Commits change caller space rest before after := by
      show ((Request.change caller _).perform.run.run Backend.answer b).state.Commits _ _ _ _ _ _ ↔ _
      rw [hstate]
      rfl
    rw [Backend.commits_cons hnames]
    constructor
    · rintro ⟨hfirst, hothers⟩
      have hone := commits_single.mp ⟨hfirst, rfl⟩
      refine ⟨_, hone, (hsame _ _).mp ?_⟩
      exact (ih (hone.keepsNames hnames) hrest).mp hothers
    · rintro ⟨middle, hone, hafter⟩
      obtain ⟨hfirst, rfl⟩ := commits_single.mpr hone
      refine ⟨hfirst, (ih (hone.keepsNames hnames) hrest).mpr ?_⟩
      exact (hsame _ _).mpr hafter

namespace Service

/-- **A batch equals single requests.** A request to change members by the identities of a batch, at
least one of which is there, succeeds if and only if the requests for one identity after another all
succeed, each on what the one before has left. Then both leave the same policies. -/
theorem batch_eq_singles (b : Backend) (hnames : KeepsNames b.store.policies)
    (caller : Option Caller) (change : Change) (space : String) (entries : List (Option String))
    (hsome : ∃ text, some text ∈ entries) :
    let batch := b.run ((Mutation.ofBatch change space ⟨some entries⟩).perform caller)
    let singles := performEach Backend.answer
      ((entries.filterMap id).map fun text => .change caller (.ofOne change space text)) b
    (batch.value = .ok () ↔ ∀ result ∈ singles.1, ∃ value, result = .ok value) ∧
      (batch.value = .ok () → batch.state.store.policies = singles.2.store.policies) := by
  intro batch singles
  have hne : entries.filterMap id ≠ [] := by
    obtain ⟨text, htext⟩ := hsome
    exact List.ne_nil_of_mem (List.mem_filterMap.mpr ⟨some text, htext, rfl⟩)
  -- A batch commits what its texts commit, gaps left out, whether it adds or removes.
  have hbatch {after : List (String × Policy)} :
      (batch.value = .ok () ∧ batch.state.store.policies = after) ↔
        b.Commits change caller space (entries.filterMap id) b.store.policies after := by
    cases change with
    | add => exact Backend.commits_perform (m := .addAll space ⟨some entries⟩) rfl
    | remove => exact Backend.commits_perform (m := .removeAll space ⟨some entries⟩) rfl
  have hboth {after : List (String × Policy)} :
      (batch.value = .ok () ∧ batch.state.store.policies = after) ↔
        (∀ result ∈ singles.1, ∃ value, result = .ok value) ∧
          singles.2.store.policies = after :=
    hbatch.trans (commits_singles hnames hne).symm
  refine ⟨⟨fun h => (hboth.mp ⟨h, rfl⟩).1, fun h => (hboth.mpr ⟨h, rfl⟩).1⟩, fun h => ?_⟩
  exact (hboth.mp ⟨h, rfl⟩).2.symm

/-- A batch with a gap and a repetition does what single requests do for the identities in it. -/
theorem batch_eq_singles_with_repetition :
    let entries := [some (Uuid.uniform 2).text, none, some (Uuid.uniform 3).text,
      some (Uuid.uniform 2).text]
    let batch := Backend.sample.run
      ((Mutation.ofBatch .add (Uuid.uniform 0).text ⟨some entries⟩).perform none)
    let singles := performEach Backend.answer ((entries.filterMap id).map fun text =>
      .change none (.ofOne .add (Uuid.uniform 0).text text)) Backend.sample
    batch.value = .ok () ∧ singles.1.length = 3 ∧
      batch.state.store.policies = singles.2.store.policies := by
  have hok : (Backend.sample.run ((Mutation.ofBatch .add (Uuid.uniform 0).text
      ⟨some [some (Uuid.uniform 2).text, none, some (Uuid.uniform 3).text,
        some (Uuid.uniform 2).text]⟩).perform none)).value = .ok () := by
    decide +kernel
  exact ⟨hok, by decide +kernel, (batch_eq_singles .sample Backend.keepsNames_sample none .add _ _
    ⟨_, List.mem_cons_self⟩).2 hok⟩

end Service

end Roster
