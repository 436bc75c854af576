import Mathlib.Data.Option.Basic
import Roster.Proofs.Effect

/-!
# Batches that name the same identities

Of a batch it only matters which identities it names: not their order, nor how often and in which
spelling each of them stands there, nor the gaps. Of two batches that name the same identities both
succeed or both fail; two removals leave the same policies, and two additions leave policies that
list the same members, the new ones perhaps in another order (`batches_of_same_identities`).

A request may break off at any of its identities, but whether it does is decided by all of them:
each has to be found, the owner may not be among them, and there has to be a change that matters for
anything to be stored. So what one batch commits tells that the other one commits as well, and what
it leaves (`Backend.Commits.of_same_identities`).
-/

namespace Roster

open Service

/-- Two policies that differ at most in the order in which they list their members. -/
structure Policy.Rearranged (p q : Policy) : Prop where
  /-- Nothing but the texts of the member lists differs. -/
  same : q = p.withUsers q.config.users
  /-- The texts are the same, or they list the same members in some order. -/
  members : q.config.users = p.config.users ∨
    ∃ ids ids', p.members = .ok ids ∧ q.members = .ok ids' ∧ ids.Perm ids'

theorem Policy.Rearranged.refl (p : Policy) : p.Rearranged p :=
  ⟨rfl, Or.inl rfl⟩

theorem Policy.rearranged_withMembers {ids ids' : List Uuid} (p : Policy) (h : ids.Perm ids') :
    (p.withMembers ids).Rearranged (p.withMembers ids') :=
  ⟨rfl, Or.inr ⟨ids, ids', members_withMembers ids p, members_withMembers ids' p, h⟩⟩

/-! ### The identities of texts -/

/-- Texts that all spell identities spell a row of them. -/
theorem exists_spelled {texts : List String} (h : ∀ text ∈ texts, (Uuid.parse? text).isSome) :
    ∃ xs : List Uuid, texts.map Uuid.parse? = xs.map some := by
  induction texts with
  | nil => exact ⟨[], rfl⟩
  | cons text rest ih =>
    obtain ⟨hfirst, hrest⟩ := List.forall_mem_cons.mp h
    obtain ⟨x, hx⟩ := Option.isSome_iff_exists.mp hfirst
    obtain ⟨xs, hxs⟩ := ih hrest
    exact ⟨x :: xs, by simp [hx, hxs]⟩

theorem mem_of_spelled {texts : List String} {xs : List Uuid}
    (h : texts.map Uuid.parse? = xs.map some) (x : Uuid) :
    x ∈ xs ↔ ∃ text ∈ texts, Uuid.parse? text = some x := by
  -- Wrapped, the identities are what the texts spell.
  have hmem : x ∈ xs ↔ some x ∈ xs.map some := by simp
  rw [hmem, ← h, List.mem_map]

variable {b : Backend} {change : Change} {caller : Option Caller} {space : String}
  {texts texts' : List String} {xs ys : List Uuid} {before after : List (String × Policy)}

/-- Whether the owner is named is decided by which identities are named. -/
theorem namesOwner_congr (htexts : texts.map Uuid.parse? = xs.map some)
    (htexts' : texts'.map Uuid.parse? = ys.map some) (hsame : ∀ x, x ∈ xs ↔ x ∈ ys)
    (found : Space) : namesOwner found texts = namesOwner found texts' := by
  rw [Bool.eq_iff_iff]
  simp only [namesOwner, List.any_eq_true, decide_eq_true_eq]
  -- Either row names the owner if the owner is among the identities that it spells.
  rw [← mem_of_spelled htexts, ← mem_of_spelled htexts', hsame]

theorem Oracle.Clears.congr {o : Oracle} {resource : SpaceResource}
    (h : o.Clears change caller space texts resource)
    (howner : ∀ found, namesOwner found texts = namesOwner found texts') :
    o.Clears change caller space texts' resource := by
  obtain ⟨id, hid, hkept, hlocate⟩ := h
  refine ⟨id, hid, fun hremove => ?_, hlocate⟩
  -- A removal was let through because the owner is not named.
  obtain ⟨found, hfound, hothers⟩ := removableOf_eq_ok.mp (hkept hremove)
  exact removableOf_eq_ok.mpr ⟨found, hfound, by rw [← howner, hothers]⟩

/-! ### What the batches commit -/

/-- What a row of texts commits, every other row of texts for the same identities commits as well,
up to the order of the members that are new. -/
theorem Backend.Commits.of_same_identities (h : b.Commits change caller space texts before after)
    (htexts : texts.map Uuid.parse? = xs.map some)
    (htexts' : texts'.map Uuid.parse? = ys.map some) (hsame : ∀ x, x ∈ xs ↔ x ∈ ys) :
    ∃ after', b.Commits change caller space texts' before after' ∧
      (change = .remove → after' = after) ∧
      ∀ name, Option.Rel Policy.Rearranged (after.lookup name) (after'.lookup name) := by
  have hrefl (name : String) :
      Option.Rel Policy.Rearranged (after.lookup name) (after.lookup name) := by
    cases after.lookup name with
    | none => exact .none
    | some policy => exact .some (.refl policy)
  by_cases hempty : xs = []
  -- Rows that name nobody are the same row.
  · subst hempty
    obtain rfl : ys = [] := List.eq_nil_iff_forall_not_mem.mpr fun x hx => by
      simpa using (hsame x).mpr hx
    obtain rfl : texts = [] := List.map_eq_nil_iff.mp htexts
    obtain rfl : texts' = [] := List.map_eq_nil_iff.mp htexts'
    exact ⟨after, h, fun _ => rfl, hrefl⟩
  -- Where one row names somebody, the other one does too.
  have hempty' : ys ≠ [] := by
    obtain ⟨x, hx⟩ := List.exists_mem_of_ne_nil xs hempty
    exact List.ne_nil_of_mem ((hsame x).mp hx)
  obtain ⟨hfetch, resource, fetched, changed, differs, hclears, hfetched, hchanges, hmay, rfl⟩ := h
  obtain ⟨xs', hspelled, hknown, happlied⟩ := Oracle.changes_eq_ok_iff.mp hchanges
  -- A row of texts spells one row of identities only.
  obtain rfl : xs = xs' :=
    List.map_injective_iff.mpr (Option.some_injective _) (htexts.symm.trans hspelled)
  obtain ⟨ids, hids, rfl, rfl⟩ := (Change.applyEach_eq_ok_iff hempty).mp happlied
  -- The other row can make its changes, and they make a difference if these do.
  have hnet : change.netMembers xs ids = ids ↔ change.netMembers ys ids = ids :=
    Change.netMembers_eq_congr hsame
  have hchanges' : b.oracle.changes change texts' (fetched, false) =
      .ok (if change.netMembers ys ids = ids then fetched
        else fetched.withMembers (change.netMembers ys ids),
        decide (change.netMembers xs ids ≠ ids)) := by
    refine Oracle.changes_eq_ok_iff.mpr ⟨ys, htexts', fun y hy => hknown y ((hsame y).mpr hy), ?_⟩
    exact (Change.applyEach_eq_ok_iff hempty').mpr ⟨ids, hids, rfl, by simp [hnet]⟩
  have hclears' := hclears.congr (namesOwner_congr htexts htexts' hsame)
  refine ⟨_, ⟨hfetch, resource, fetched, _, _, hclears', hfetched, hchanges', hmay, rfl⟩, ?_, ?_⟩
  · -- The same identities leave the same members when they are removed.
    rintro rfl
    rw [Change.netMembers_remove_congr hsame]
  · -- Added, they leave the same members in another order, in the one policy that is stored.
    intro name
    by_cases hdiffers : change.netMembers xs ids = ids
    · simpa [hdiffers] using hrefl name
    · have hdiffers' : change.netMembers ys ids ≠ ids := fun heq => hdiffers (hnet.mpr heq)
      simp only [hdiffers, hdiffers', ne_eq, not_false_eq_true, decide_true, if_true, if_false,
        PolicyStore.putOwn, PolicyStore.lookup_putIn]
      -- Both policies are put under the name of the one that was fetched.
      show Option.Rel _ (if name = PolicyStore.nameOf fetched then _ else _)
        (if name = PolicyStore.nameOf fetched then _ else _)
      split
      · exact .some (Policy.rearranged_withMembers fetched (Change.netMembers_perm hsame))
      · cases before.lookup name with
        | none => exact .none
        | some policy => exact .some (.refl policy)

/-! ### Whole requests -/

/-- When a request by a batch succeeds, and what it leaves. -/
theorem Backend.commits_ofBatch {entries : List (Option String)} :
    let run := b.run ((Mutation.ofBatch change space ⟨some entries⟩).perform caller)
    (run.value = .ok () ∧ run.state.store.policies = after) ↔
      b.Commits change caller space (entries.filterMap id) b.store.policies after := by
  cases change with
  | add => exact commits_perform (m := .addAll space ⟨some entries⟩) rfl
  | remove => exact commits_perform (m := .removeAll space ⟨some entries⟩) rfl

namespace Service

variable {entries entries' : List (Option String)}

/-- One of the entries of a batch spells the identity. -/
def Names (entries : List (Option String)) (id : Uuid) : Prop :=
  ∃ text, some text ∈ entries ∧ Uuid.parse? text = some id

/-- Every entry of a batch that is not a gap spells an identity. -/
def Legible (entries : List (Option String)) : Prop :=
  ∀ text, some text ∈ entries → (Uuid.parse? text).isSome

theorem Legible.exists_spelled (h : Legible entries) :
    ∃ xs : List Uuid, (entries.filterMap id).map Uuid.parse? = xs.map some ∧
      ∀ x, x ∈ xs ↔ Names entries x := by
  have hmem (text : String) : text ∈ entries.filterMap id ↔ some text ∈ entries := by simp
  -- The entries that are no gaps are the texts that the request goes by.
  obtain ⟨xs, hxs⟩ := Roster.exists_spelled fun text htext => h text ((hmem text).mp htext)
  refine ⟨xs, hxs, fun x => ?_⟩
  rw [mem_of_spelled hxs]
  simp only [hmem, Names]

/-- A request by one batch succeeds where a request by another one does that names the same
identities, and what they leave differs at most in the order of the members. -/
theorem ofBatch_of_same_identities {b : Backend} {caller : Option Caller} {space : String}
    (change : Change) (hlegible : Legible entries) (hlegible' : Legible entries')
    (hsame : ∀ id, Names entries id ↔ Names entries' id) :
    let run := b.run ((Mutation.ofBatch change space ⟨some entries⟩).perform caller)
    let run' := b.run ((Mutation.ofBatch change space ⟨some entries'⟩).perform caller)
    run.value = .ok () → run'.value = .ok () ∧
      (change = .remove → run'.state.store.policies = run.state.store.policies) ∧
      ∀ name, Option.Rel Policy.Rearranged (run.state.store.get? name)
        (run'.state.store.get? name) := by
  intro run run' hok
  obtain ⟨xs, hxs, hnames⟩ := hlegible.exists_spelled
  obtain ⟨ys, hys, hnames'⟩ := hlegible'.exists_spelled
  have hidentities (x : Uuid) : x ∈ xs ↔ x ∈ ys := by
    rw [hnames, hnames', hsame]
  obtain ⟨after, hafter, hremove, hrel⟩ :=
    (Backend.commits_ofBatch.mp ⟨hok, rfl⟩).of_same_identities hxs hys hidentities
  obtain ⟨hok', hpolicies⟩ := Backend.commits_ofBatch.mpr hafter
  refine ⟨hok', fun hchange => hpolicies.trans (hremove hchange), fun name => ?_⟩
  rw [PolicyStore.get?, PolicyStore.get?, hpolicies]
  exact hrel name

/-- **Only the identities matter.** Of two batches of which every entry that is not a gap spells an
identity, and which name the same identities, whatever the order, the repetitions, the gaps and the
spellings, both can be added or neither, and the same goes for their removal. What additions leave
are the same policies up to the order in which they list their members; what removals leave are the
same policies, text by text. -/
theorem batches_of_same_identities (b : Backend) (caller : Option Caller) (space : String)
    (entries entries' : List (Option String)) (hlegible : Legible entries)
    (hlegible' : Legible entries') (hsame : ∀ id, Names entries id ↔ Names entries' id) :
    let added := b.run ((Mutation.addAll space ⟨some entries⟩).perform caller)
    let added' := b.run ((Mutation.addAll space ⟨some entries'⟩).perform caller)
    let removed := b.run ((Mutation.removeAll space ⟨some entries⟩).perform caller)
    let removed' := b.run ((Mutation.removeAll space ⟨some entries'⟩).perform caller)
    (added.value = .ok () ↔ added'.value = .ok ()) ∧
      (added.value = .ok () → ∀ name,
        Option.Rel Policy.Rearranged (added.state.store.get? name) (added'.state.store.get? name)) ∧
      (removed.value = .ok () ↔ removed'.value = .ok ()) ∧
      (removed.value = .ok () → removed'.state.store.policies = removed.state.store.policies) := by
  intro added added' removed removed'
  -- The relation is symmetric, so one lemma used both ways gives both directions.
  have hsame' (id : Uuid) : Names entries' id ↔ Names entries id := (hsame id).symm
  have hadd : added.value = .ok () → _ :=
    ofBatch_of_same_identities .add hlegible hlegible' hsame
  have hadd' : added'.value = .ok () → _ :=
    ofBatch_of_same_identities .add hlegible' hlegible hsame'
  have hremove : removed.value = .ok () → _ :=
    ofBatch_of_same_identities .remove hlegible hlegible' hsame
  have hremove' : removed'.value = .ok () → _ :=
    ofBatch_of_same_identities .remove hlegible' hlegible hsame'
  refine ⟨⟨fun h => (hadd h).1, fun h => (hadd' h).1⟩, fun h => (hadd h).2.2,
    ⟨fun h => (hremove h).1, fun h => (hremove' h).1⟩, fun h => (hremove h).2.1 rfl⟩

/-- Two guests are added in one order, or in the other with a gap, a repetition and another spelling
of one of them. -/
theorem guests_added_in_either_order :
    let entries := [some (Uuid.uniform 2).text, some (Uuid.uniform 3).text]
    let entries' := [some (String.ofList (List.replicate 32 '3')), none,
      some (Uuid.uniform 2).text, some (Uuid.uniform 3).text]
    let space := (Uuid.uniform 0).text
    let added := Backend.sample.run ((Mutation.addAll space ⟨some entries⟩).perform none)
    let added' := Backend.sample.run ((Mutation.addAll space ⟨some entries'⟩).perform none)
    Legible entries ∧ Legible entries' ∧ (∀ id, Names entries id ↔ Names entries' id) ∧
      added.value = .ok () ∧ added'.value = .ok () ∧
      Option.Rel Policy.Rearranged (added.state.store.get? "policy")
        (added'.state.store.get? "policy") := by
  intro entries entries' space added added'
  have htwo : Uuid.parse? (Uuid.uniform 2).text = some (.uniform 2) := by decide +kernel
  have hthree : Uuid.parse? (Uuid.uniform 3).text = some (.uniform 3) := by decide +kernel
  -- Without hyphens it is the same identity in another spelling.
  have hplain : Uuid.parse? (String.ofList (List.replicate 32 '3')) = some (.uniform 3) := by
    decide +kernel
  have hlegible : Legible entries := by
    intro text htext
    simp only [entries, List.mem_cons, Option.some.injEq, List.not_mem_nil, or_false] at htext
    rcases htext with rfl | rfl
    · rw [htwo, Option.isSome_some]
    · rw [hthree, Option.isSome_some]
  have hlegible' : Legible entries' := by
    intro text htext
    simp only [entries', List.mem_cons, Option.some.injEq, reduceCtorEq, List.not_mem_nil, or_false,
      false_or] at htext
    rcases htext with rfl | rfl | rfl
    · rw [hplain, Option.isSome_some]
    · rw [htwo, Option.isSome_some]
    · rw [hthree, Option.isSome_some]
  have hsame (id : Uuid) : Names entries id ↔ Names entries' id := by
    simp only [Names, entries, entries', List.mem_cons, Option.some.injEq, reduceCtorEq,
      List.not_mem_nil, or_false, false_or, or_and_right, exists_or, exists_eq_left, htwo, hthree,
      hplain]
    constructor
    · rintro (h | h)
      · exact Or.inr (Or.inl h)
      · exact Or.inl h
    · rintro (h | h | h)
      · exact Or.inr h
      · exact Or.inl h
      · exact Or.inr h
  have hok : added.value = .ok () := by decide +kernel
  obtain ⟨hiff, hrel, -⟩ :=
    batches_of_same_identities .sample none space entries entries' hlegible hlegible' hsame
  exact ⟨hlegible, hlegible', hsame, hok, hiff.mp hok, hrel hok "policy"⟩

end Service

end Roster
