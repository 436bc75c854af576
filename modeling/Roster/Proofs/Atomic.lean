import Roster.Proofs.Backend
import Roster.Proofs.Transcript

/-!
# Requests take effect as a whole

A request to change members that fails leaves the policies exactly as they were, wherever it failed;
one that succeeds changes at most the policy of its space, and in that policy nothing but the text
of the member list (`all_or_nothing`). Faults may strike at any single call.

The argument reads the rows of `Alteration`. In every row but one nothing is stored
(`Update.stores`), so the policies stay. In the remaining one a policy is stored as the last thing,
and what answers that call is also what the request ends with: it fails exactly if nothing was
stored.
-/

namespace Roster.Service

variable {σ : Type} {handler : Handler interface σ} {directory : σ → Directory}
  {policies : σ → List (String × Policy)} {change : Change} {caller : Option Caller} {space : Uuid}
  {texts : List String} {exchanges : List Exchanged} {result : Result Unit} {first last : σ}

/-- At most the policy of the space that a text names is another one, and only the text of its
member list. -/
def Confined (directory : Directory) (text : String) (before after : List (String × Policy)) :
    Prop :=
  ∀ name, after.lookup name = before.lookup name ∨
    ∃ space resource policy users, Uuid.parse? text = some space ∧
      directory.find? (.resource space) = some resource ∧ resource.policyId = name ∧
      before.lookup name = some policy ∧ after.lookup name = some (policy.withUsers users)

theorem Confined.refl (directory : Directory) (text : String) (before : List (String × Policy)) :
    Confined directory text before before :=
  fun _ => Or.inl rfl

/-- What a request that keeps the rows of an alteration leaves behind. -/
theorem Alteration.outcome {place text : String} (hserves : Serves handler directory policies)
    (h : Alteration change place caller text texts exchanges result)
    (hanswers : Answers handler first exchanges last) (hnames : KeepsNames (policies first)) :
    (∀ f, result = .error f → policies last = policies first) ∧
      Confined (directory first) text (policies first) (policies last) := by
  -- A row in which nothing is stored leaves everything as it is.
  have hsame (hreads : ∀ e ∈ exchanges, e.call.isStore = false) :
      (∀ f, result = .error f → policies last = policies first) ∧
        Confined (directory first) text (policies first) (policies last) := by
    obtain ⟨-, hpolicies, -⟩ := hserves.credible hanswers hreads
    rw [hpolicies]
    exact ⟨fun _ _ => rfl, .refl _ _ _⟩
  cases h with
  | malformed f h => exact hsame (by simp)
  | kept space answer f hspace => exact hsame (by simp [Call.isStore])
  | updated space opening rest result hspace hopening hupdate =>
    have hopen : ∀ e ∈ opening, e.call.isStore = false := fun e he => by
      rw [hopening.calls e he]
      rfl
    rcases hupdate.stores with hreads |
      ⟨resource, fetched, after, token, lookups, answer, xs, rfl, hreads, -, -, happlied, rfl⟩
    · exact hsame (List.forall_mem_append.mpr ⟨hopen, hreads⟩)
    obtain ⟨-, users, rfl⟩ := Change.applyEach_eq_ok happlied
    -- The row is read up to the attempt to store, and then the attempt.
    rw [← List.append_assoc, answers_append] at hanswers
    obtain ⟨middle, hbefore, hanswer, hlast⟩ := hanswers
    change last = (handler (.store (fetched.withUsers users) token) middle).2 at hlast
    obtain ⟨-, hpolicies, hcredible⟩ :=
      hserves.credible hbefore (List.forall_mem_append.mpr ⟨hopen, hreads⟩)
    -- Resource and policy were read while nothing had changed yet.
    have hresource : some resource = (directory first).find? (.resource space) :=
      hcredible ⟨.find (.resource space), .ok (some resource)⟩ (by simp [held]) _ rfl
    have hfetched : (policies first).lookup resource.policyId = some fetched :=
      hcredible ⟨.fetch resource.policyId, .ok (fetched, token)⟩ (by simp [held]) _ _ rfl
    -- What answers the attempt is also what the request ends with.
    cases answer with
    | error f =>
      have hrejected : policies last = policies first := by
        rw [hlast, hserves.rejected _ _ _ f hanswer.symm, hpolicies]
      rw [hrejected]
      exact ⟨fun _ _ => rfl, .refl _ _ _⟩
    | ok _ =>
      -- Whatever is stored is put under the name that it was fetched by.
      have hname : PolicyStore.nameOf (fetched.withUsers users) = resource.policyId := by
        show PolicyStore.nameOf fetched = resource.policyId
        exact hnames _ _ hfetched
      have hstored : policies last =
          PolicyStore.putIn resource.policyId (fetched.withUsers users) (policies first) := by
        calc policies last
            = PolicyStore.putIn (PolicyStore.nameOf (fetched.withUsers users))
                (fetched.withUsers users) (policies middle) := by
              rw [hlast, hserves.stored _ _ _ hanswer.symm]
          _ = PolicyStore.putIn resource.policyId (fetched.withUsers users) (policies first) := by
              rw [hname, hpolicies]
      constructor
      · intro f hf
        cases hf
      -- Every other policy is as it was, as one name only was put.
      intro name
      rw [hstored, PolicyStore.lookup_putIn]
      by_cases heq : name = resource.policyId
      · rw [if_pos heq, heq]
        exact Or.inr ⟨space, resource, fetched, users, hspace, hresource.symm, rfl, hfetched, rfl⟩
      · rw [if_neg heq]
        exact Or.inl rfl

/-- A request to change members that fails leaves all policies as they were, whatever answers it. -/
theorem Mutation.policies_of_error (hserves : Serves handler directory policies) {m : Mutation}
    (hnames : KeepsNames (policies first)) {f : Failure}
    (hfailed : ((m.perform caller).run.run handler first).value = .error f) :
    policies ((m.perform caller).run.run handler first).state = policies first := by
  have hanswers := answers_run handler (m.perform caller).run first
  rcases mutation_of_shows (Program.shows_run handler (m.perform caller).run first) with
    ⟨-, -, hok⟩ | ⟨entries, -, halteration⟩
  · cases hfailed.symm.trans hok
  · exact (halteration.outcome hserves hanswers hnames).1 f hfailed

/-- **All or nothing.** Whatever calls fail, a request to change members that fails leaves all
policies as they were, and one that succeeds leaves all as they were but the policy of its space, of
which it changes the text of the member list. -/
theorem all_or_nothing (plan : Nat → Faults) (b : Backend) (hnames : KeepsNames b.store.policies)
    (caller : Option Caller) (m : Mutation) :
    let run := (m.perform caller).run.run (Backend.answerUnder plan) (b, 0)
    (∀ f, run.value = .error f → run.state.1.store.policies = b.store.policies) ∧
      (run.value = .ok () →
        Confined b.directory m.space b.store.policies run.state.1.store.policies) := by
  intro run
  have hanswers : Answers (Backend.answerUnder plan) (b, 0) run.exchanges run.state :=
    answers_run _ _ _
  rcases mutation_of_shows (Program.shows_run _ (m.perform caller).run (b, 0)) with
    ⟨-, hnone, -⟩ | ⟨entries, -, halteration⟩
  -- A request that names no identities does nothing at all.
  · change run.exchanges = [] at hnone
    rw [hnone] at hanswers
    have hstate : run.state = (b, 0) := hanswers
    rw [hstate]
    exact ⟨fun _ _ => rfl, fun _ => .refl _ _ _⟩
  · obtain ⟨hfailed, hconfined⟩ :=
      halteration.outcome (Backend.serves_answerUnder plan) hanswers hnames
    exact ⟨hfailed, fun _ => hconfined⟩

/-- A policy that cannot be stored stays as it is, after all identities have been looked up. -/
theorem policies_kept_by_failing_store :
    let m : Mutation := .addAll (Uuid.uniform 0).text ⟨some [some (Uuid.uniform 2).text]⟩
    let plan (n : Nat) : Faults :=
      { store := if n = 4 then some PolicyStore.outdatedToken else none }
    let run := (m.perform none).run.run (Backend.answerUnder plan) (.sample, 0)
    run.exchanges.length = 5 ∧
      run.state.1.store.policies = Backend.sample.store.policies :=
  ⟨rfl, (all_or_nothing _ .sample Backend.keepsNames_sample none _).1 _ rfl⟩

end Roster.Service
