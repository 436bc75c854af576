import Mathlib.Data.Option.Basic
import Roster.Proofs.Atomic
import Roster.Proofs.Batch
import Roster.Proofs.NetChange

/-!
# What a successful request changes

A request to change members that succeeds leaves the net members in the policy of its space. It
stores that policy once if these are other members than before, and not at all if they are the same,
so that a text in an unusual spelling stays as it is. The same request once more changes nothing
(`change_takes_effect_once`).

The exchanges of the request tell what it stored (`Alteration.effect`). That the second request
succeeds is read off what the first one commits: to the policy that it left, the same changes make
no difference (`Backend.Commits.again`).
-/

namespace Roster

open Service

/-! ### Identities that are named and found -/

namespace Oracle

variable {o : Oracle} {change : Change} {texts : List String} {p q : Policy} {flag differs : Bool}

/-- The identity is found when it is looked up. -/
def Knows (o : Oracle) (id : Uuid) : Prop :=
  ∃ identity, o.find (.identity id) = .ok (some identity)

/-- Changes by each text succeed if every text spells an identity that is found, and then they are
the changes by these identities. -/
theorem changes_eq_ok_iff :
    o.changes change texts (p, flag) = .ok (q, differs) ↔
      ∃ xs, texts.map Uuid.parse? = xs.map some ∧ (∀ x ∈ xs, o.Knows x) ∧
        change.applyEach xs (p, flag) = .ok (q, differs) := by
  induction texts generalizing p flag with
  | nil => simp [changes, Change.applyEach]
  | cons text rest ih =>
    rw [changes_cons_iff]
    constructor
    · -- Each step of the row succeeded, so the text spells an identity that was found.
      rintro ⟨id, identity, middle, first, hid, hidentity, happly, hrest⟩
      obtain ⟨xs, htexts, hknown, heach⟩ := ih.mp hrest
      refine ⟨id :: xs, by simp [hid, htexts], ?_, ?_⟩
      · exact List.forall_mem_cons.mpr ⟨⟨identity, hidentity⟩, hknown⟩
      · rw [Change.applyEach, happly]
        exact heach
    · -- The row of identities is not empty, and its first one is what the text spells.
      rintro ⟨_ | ⟨id, xs⟩, htexts, hknown, heach⟩
      · cases htexts
      obtain ⟨hid, htexts⟩ := List.cons.inj htexts
      obtain ⟨⟨identity, hidentity⟩, hknown⟩ := List.forall_mem_cons.mp hknown
      rw [Change.applyEach, bind_eq_ok] at heach
      obtain ⟨⟨middle, first⟩, happly, heach⟩ := heach
      exact ⟨id, identity, middle, first, hid, hidentity, happly,
        ih.mpr ⟨xs, htexts, hknown, heach⟩⟩

end Oracle

variable {b : Backend} {change : Change} {caller : Option Caller} {text place : String}
  {texts : List String} {before after : List (String × Policy)}

/-- What commits once commits again, and leaves what the first time has left. -/
theorem Backend.Commits.again (h : b.Commits change caller text texts before after)
    (hnames : KeepsNames before) : b.Commits change caller text texts after after := by
  obtain ⟨hfetch, resource, fetched, changed, differs, hclears, hfetched, hchanges, -, rfl⟩ := h
  -- Stored or not, the changed policy is the one under the name now.
  have hlookup : (PolicyStore.putOwn (if differs then some changed else none) before).lookup
      resource.policyId = some changed := by
    obtain ⟨hname, hsame⟩ := Oracle.changes_keep hchanges
    exact PolicyStore.lookup_putOwn hnames hfetched hname hsame
  -- The same identities make no difference to what they have left.
  have hagain : b.oracle.changes change texts (changed, false) = .ok (changed, false) := by
    obtain ⟨xs, htexts, hknown, heach⟩ := Oracle.changes_eq_ok_iff.mp hchanges
    exact Oracle.changes_eq_ok_iff.mpr ⟨xs, htexts, hknown, Change.applyEach_self heach⟩
  exact ⟨hfetch, resource, changed, changed, false, hclears, hlookup, hagain, nofun, rfl⟩

/-! ### What is stored -/

namespace Service

variable {σ : Type} {handler : Handler interface σ} {directory : σ → Directory}
  {policies : σ → List (String × Policy)} {exchanges : List Exchanged} {first last : σ}

/-- What a request that succeeds has done: the policy of its space is changed by the identities that
the texts spell, and it is stored once if that makes a difference and else not at all. -/
theorem Alteration.effect (hserves : Serves handler directory policies)
    (h : Alteration change place caller text texts exchanges (.ok ()))
    (hanswers : Answers handler first exchanges last) :
    ∃ space resource fetched changed differs xs,
      Uuid.parse? text = some space ∧
      (directory first).find? (.resource space) = some resource ∧
      (policies first).lookup resource.policyId = some fetched ∧
      texts.map Uuid.parse? = xs.map some ∧
      change.applyEach xs (fetched, false) = .ok (changed, differs) ∧
      policies last = PolicyStore.putOwn (if differs then some changed else none) (policies first) ∧
      exchanges.countP (·.call.isStore) = if differs then 1 else 0 := by
  generalize hresult : (Except.ok () : Result Unit) = result at h
  -- A success is an update that was finished, behind its opening.
  cases h with
  | malformed => cases hresult
  | kept => cases hresult
  | updated space opening rest result hspace hopening hupdate =>
    obtain rfl : result = .ok () := Result.through_eq_ok.mp hresult.symm
    obtain ⟨resource, fetched, changed, differs, token, lookups, xs, rfl, hreads, htexts,
      happlied⟩ :=
      hupdate.of_ok
    -- Up to the attempt to store, the row only reads.
    have hfront : ∀ e ∈ opening ++ (held caller space resource fetched token ++ lookups),
        e.call.isStore = false := by
      refine List.forall_mem_append.mpr ⟨fun e he => ?_, hreads⟩
      rw [hopening.calls e he]
      rfl
    rw [← List.append_assoc, answers_append] at hanswers
    obtain ⟨middle, hbefore, hbehind⟩ := hanswers
    obtain ⟨-, hpolicies, hcredible⟩ := hserves.credible hbefore hfront
    -- What the row found is what the directory and the policies had at the start.
    have hresource : some resource = (directory first).find? (.resource space) :=
      hcredible ⟨.find (.resource space), .ok (some resource)⟩ (by simp [held]) _ rfl
    have hfetched : (policies first).lookup resource.policyId = some fetched :=
      hcredible ⟨.fetch resource.policyId, .ok (fetched, token)⟩ (by simp [held]) _ _ rfl
    have hcount : (opening ++ (held caller space resource fetched token ++ lookups)).countP
        (·.call.isStore) = 0 :=
      List.countP_eq_zero.mpr fun e he => by simp [hfront e he]
    refine ⟨space, resource, fetched, changed, differs, xs, hspace, hresource.symm, hfetched,
      htexts, happlied, ?_, ?_⟩
    · -- Without a difference the row ends behind the lookups; with one, the store was answered.
      cases differs with
      | false =>
        have hsame : last = middle := hbehind
        rw [hsame, hpolicies]
        rfl
      | true =>
        obtain ⟨hanswer, hlast⟩ := hbehind
        change last = (handler (.store changed token) middle).2 at hlast
        rw [hlast, hserves.stored _ _ _ hanswer.symm, hpolicies]
        rfl
    · rw [← List.append_assoc, List.countP_append, hcount]
      cases differs <;> rfl

end Service

/-! ### Requests against a backend -/

namespace Backend

/-- The policy that lists the members of the space that a text names. -/
def policyOf? (text : String) (b : Backend) : Option Policy := do
  let space ← Uuid.parse? text
  let resource ← b.directory.find? (.resource space)
  b.store.get? resource.policyId

theorem policyOf?_eq_some {policy : Policy} :
    b.policyOf? text = some policy ↔
      ∃ space resource, Uuid.parse? text = some space ∧
        b.directory.find? (.resource space) = some resource ∧
        b.store.get? resource.policyId = some policy := by
  simp [policyOf?, Option.bind_eq_some_iff]

/-- How many policies a run attempts to store. -/
def stores {α : Type} (run : Run interface Backend α) : Nat :=
  run.calls.countP Call.isStore

/-- What a request that names identities does where it succeeds. -/
theorem effect_of_ok {m : Mutation} {entries : List (Option String)}
    (hdata : m.batch.data = some entries) (hnames : KeepsNames b.store.policies)
    (hok : (b.run (m.perform caller)).value = .ok ()) :
    ∃ fetched changed differs xs,
      b.policyOf? m.space = some fetched ∧
      (entries.filterMap id).map Uuid.parse? = xs.map some ∧
      m.change.applyEach xs (fetched, false) = .ok (changed, differs) ∧
      (b.run (m.perform caller)).state.policyOf? m.space = some changed ∧
      stores (b.run (m.perform caller)) = if differs then 1 else 0 := by
  have hanswers : Answers answer b (b.run (m.perform caller)).exchanges
      (b.run (m.perform caller)).state := answers_run _ _ _
  have hshows := Program.shows_run answer (m.perform caller).run b
  -- A request that names identities is an alteration.
  rcases mutation_of_shows hshows with ⟨hnone, -⟩ | ⟨others, hothers, halteration⟩
  · simp [hdata] at hnone
  obtain rfl : entries = others := Option.some.inj (hdata.symm.trans hothers)
  have hvalue : ((m.perform caller).run.run answer b).value = .ok () := hok
  rw [hvalue] at halteration
  obtain ⟨space, resource, fetched, changed, differs, xs, hspace, hresource, hfetched, htexts,
    happlied, hpolicies, hcount⟩ := halteration.effect serves_answer hanswers
  refine ⟨fetched, changed, differs, xs, ?_, htexts, happlied, ?_, ?_⟩
  · exact policyOf?_eq_some.mpr ⟨space, resource, hspace, hresource, hfetched⟩
  · -- The request leaves the directory as it is, and puts the policy under its own name.
    obtain ⟨policies, issued, hstate⟩ := exists_holding_run (m.perform caller).run b
    have hdirectory : (b.run (m.perform caller)).state.directory = b.directory := by
      rw [run, hstate]
      rfl
    have hname : PolicyStore.nameOf changed = PolicyStore.nameOf fetched := by
      obtain ⟨-, users, rfl⟩ := Change.applyEach_eq_ok happlied
      rfl
    have hsame (hdiffers : differs = false) : changed = fetched := by
      subst hdiffers
      exact Change.eq_of_applyEach happlied
    refine policyOf?_eq_some.mpr ⟨space, resource, hspace, by rw [hdirectory, hresource], ?_⟩
    rw [PolicyStore.get?, hpolicies]
    exact PolicyStore.lookup_putOwn hnames hfetched hname hsame
  · rw [stores, Run.calls, List.countP_map]
    exact hcount

/-- A request that succeeded succeeds again on what it left, and leaves just that. -/
theorem run_again {m : Mutation} {entries : List (Option String)}
    (hdata : m.batch.data = some entries) (hnames : KeepsNames b.store.policies)
    (hok : (b.run (m.perform caller)).value = .ok ()) :
    let run := b.run (m.perform caller)
    KeepsNames run.state.store.policies ∧
      (run.state.run (m.perform caller)).value = .ok () ∧
      (run.state.run (m.perform caller)).state.store.policies = run.state.store.policies := by
  intro run
  have hcommits : b.Commits m.change caller m.space (entries.filterMap id) b.store.policies
      run.state.store.policies := (commits_perform hdata).mp ⟨hok, rfl⟩
  refine ⟨hcommits.keepsNames hnames, (commits_perform hdata).mpr ?_⟩
  -- The two backends differ in policies and tokens, which the second time does not depend on.
  obtain ⟨policies, issued, hstate⟩ := exists_holding_run (m.perform caller).run b
  have hagain := hcommits.again hnames
  change (Program.run answer (m.perform caller).run b).state.Commits _ _ _ _ _ _
  rw [hstate]
  exact hagain

end Backend

namespace Service

open Backend

/-- **Changes take effect once.** In a world in which policies are under their own names, a request
to change members that names at least one identity and succeeds leaves the net members in the policy
of its space. If these are other members than before, the policy is stored once, with the text that
lists them; else nothing is stored, and the policy stays as it is, text and all. The same request
once more succeeds, stores nothing and leaves all policies as they are. -/
theorem change_takes_effect_once (b : Backend) (hnames : KeepsNames b.store.policies)
    (caller : Option Caller) (m : Mutation) (entries : List (Option String))
    (hdata : m.batch.data = some entries) (hsome : ∃ text, some text ∈ entries)
    (hok : (b.run (m.perform caller)).value = .ok ()) :
    let run := b.run (m.perform caller)
    let again := run.state.run (m.perform caller)
    ∃ policy ids xs after,
      b.policyOf? m.space = some policy ∧ policy.members = .ok ids ∧
      (entries.filterMap id).map Uuid.parse? = xs.map some ∧
      run.state.policyOf? m.space = some after ∧
      after.members = .ok (m.change.netMembers xs ids) ∧
      (m.change.netMembers xs ids ≠ ids → stores run = 1 ∧
        after = policy.withUsers (MemberList.encode (m.change.netMembers xs ids))) ∧
      (m.change.netMembers xs ids = ids → stores run = 0 ∧ after = policy) ∧
      again.value = .ok () ∧ stores again = 0 ∧
      again.state.store.policies = run.state.store.policies := by
  intro run again
  obtain ⟨policy, after, differs, xs, hpolicy, htexts, happlied, hafter, hstores⟩ :=
    effect_of_ok hdata hnames hok
  obtain ⟨hkept, hagain, hsame⟩ := run_again hdata hnames hok
  -- The request names an identity, so its changes read the members of the policy.
  have hne : xs ≠ [] := by
    rintro rfl
    obtain ⟨text, htext⟩ := hsome
    have hmem : text ∈ entries.filterMap id := List.mem_filterMap.mpr ⟨some text, htext, rfl⟩
    rw [List.map_eq_nil_iff.mp htexts] at hmem
    cases hmem
  obtain ⟨ids, hids, hchanged, hdiffers⟩ := (Change.applyEach_eq_ok_iff hne).mp happlied
  have hmembers : after.members = .ok (m.change.netMembers xs ids) := by
    -- Whether it is the policy of before or a new one, it lists the net members.
    rw [hchanged]
    split
    · rename_i hnet
      rw [hids, hnet]
    · exact Policy.members_withMembers _ policy
  -- The second time the policy is fetched as the first time has left it.
  have hnone : stores again = 0 := by
    obtain ⟨fetched, changed, differs', xs', hfetched, htexts', happlied', -, hstores'⟩ :=
      effect_of_ok hdata hkept hagain
    obtain rfl : after = fetched := Option.some.inj (hafter.symm.trans hfetched)
    obtain rfl : xs = xs' :=
      List.map_injective_iff.mpr (Option.some_injective _) (htexts.symm.trans htexts')
    rw [Change.applyEach_self happlied] at happlied'
    cases happlied'
    exact hstores'
  refine ⟨policy, ids, xs, after, hpolicy, hids, htexts, hafter, hmembers, fun hnet => ?_,
    fun hnet => ?_, hagain, hnone, hsame⟩
  · -- The flag says whether the net members are others, and so how often a policy was stored.
    rw [if_neg hnet] at hchanged
    exact ⟨hstores.trans (if_pos (by simpa [hdiffers] using hnet)), hchanged⟩
  · rw [if_pos hnet] at hchanged
    exact ⟨hstores.trans (if_neg (by simpa [hdiffers] using hnet)), hchanged⟩

/-- A guest who is named twice and in two spellings, beside a member, is added once. -/
theorem guest_named_twice_added_once :
    let entries := [some (Uuid.uniform 2).text, none, some (Uuid.uniform 1).text,
      some (String.ofList (List.replicate 32 '2'))]
    let m : Mutation := .addAll (Uuid.uniform 0).text ⟨some entries⟩
    let run := Backend.sample.run (m.perform none)
    let again := run.state.run (m.perform none)
    KeepsNames Backend.sample.store.policies ∧ m.batch.data = some entries ∧
      (∃ text, some text ∈ entries) ∧ run.value = .ok () ∧ stores run = 1 ∧
      run.state.policyOf? (Uuid.uniform 0).text =
        some (.listing "policy" [.uniform 1, .uniform 2]) ∧
      again.value = .ok () ∧ stores again = 0 := by
  intro entries m run again
  have hsome : ∃ text, some text ∈ entries := ⟨_, List.mem_cons_self⟩
  -- The request is run by evaluation, and what it leaves is taken from the theorem.
  have hok : run.value = .ok () := by decide +kernel
  obtain ⟨policy, ids, xs, after, hpolicy, hids, htexts, hafter, -, hnet, -, hagain, hnone, -⟩ :=
    change_takes_effect_once .sample Backend.keepsNames_sample none m entries rfl hsome hok
  have hsample : Backend.sample.policyOf? m.space = some (.listing "policy" [.uniform 1]) :=
    policyOf?_eq_some.mpr ⟨.uniform 0, ⟨.uniform 0, "policy"⟩, by decide +kernel, rfl, rfl⟩
  obtain rfl : policy = .listing "policy" [.uniform 1] :=
    Option.some.inj (hpolicy.symm.trans hsample)
  -- The policy of the sample is the one that was found, so members and identities are known.
  obtain rfl : ids = [.uniform 1] := Except.ok.inj (hids.symm.trans (MemberList.decode_encode _))
  obtain rfl : xs = [.uniform 2, .uniform 1, .uniform 2] :=
    List.map_injective_iff.mpr (Option.some_injective _) (htexts.symm.trans (by decide +kernel))
  obtain ⟨hstores, rfl⟩ := hnet (by decide)
  exact ⟨Backend.keepsNames_sample, rfl, hsome, hok, hstores, hafter, hagain, hnone⟩

end Service

end Roster
