import Roster.Proofs.Backend
import Roster.Proofs.Transaction

/-!
# The chain of fetches

Transactions that take turns on a store that looks at tokens hang together by their fetches, the
latest first (`Chain`). Each link tells what the policies were when a transaction fetched and what
they are once it is done: as if it had been alone, if it succeeds, and as they were, if it fails.

Between a fetch and the next one only the transaction that fetched can store anything, as every
other token is outdated. So only the latest one may still store what it wants to store, and when it
does only the last link changes (`Chain.accepted`).
-/

namespace Roster

open Service

variable {α : Type}

/-- The policies that requests lead to, the latest fetch first. Originals are what remains of the
requests at the start, programs what remains of them now. The token of a request that still wants to
store is outdated unless the chain is fresh and the request is the latest one. -/
inductive Chain (o : Oracle) (lagging : Bool) (start : List (String × Policy)) (issued : Nat)
    (originals programs : List (Program interface (Result α))) :
    Prop → List Nat → List (String × Policy) → Prop where
  /-- Nobody fetched. -/
  | nil {fresh : Prop} : Chain o lagging start issued originals programs fresh [] start
  /-- A request failed. -/
  | failed {fresh : Prop} {i : Nat} {fetchers : List Nat} {policies : List (String × Policy)}
      (f : Failure) (hnow : programs[i]? = some (.done (.error f)))
      (hrest : Chain o lagging start issued originals programs fresh fetchers policies) :
      Chain o lagging start issued originals programs fresh (i :: fetchers) policies
  /-- A request succeeded, and did what it does alone. -/
  | committed {fresh : Prop} {i : Nat} {fetchers : List Nat} {before after : List (String × Policy)}
      (original : Program interface (Result α)) (value : α)
      (horiginal : originals[i]? = some original) (hnow : programs[i]? = some (.done (.ok value)))
      (halone : Alone o lagging original before after (.ok value))
      (hrest : Chain o lagging start issued originals programs False fetchers before) :
      Chain o lagging start issued originals programs fresh (i :: fetchers) after
  /-- A request wants to store a policy. -/
  | pending {fresh : Prop} {i : Nat} {fetchers : List Nat} {policies : List (String × Policy)}
      (t : Transaction α) (fetched changed : Policy) (value : α) (n : Nat)
      (horiginal : originals[i]? = some t.program)
      (hfetched : policies.lookup t.name = some fetched)
      (hresolve : t.resolve fetched = .ok (value, some changed))
      (hnow : programs[i]? = some (t.follow (PolicyStore.token n) (.ok (value, some changed))))
      (hissued : n ≤ issued) (hfresh : n = issued → fresh)
      (hrest : Chain o lagging start issued originals programs False fetchers policies) :
      Chain o lagging start issued originals programs fresh (i :: fetchers) policies

namespace Chain

variable {o : Oracle} {lagging : Bool} {start policies : List (String × Policy)} {issued : Nat}
  {originals programs : List (Program interface (Result α))} {fresh : Prop} {fetchers : List Nat}

/-- A chain stays one as long as what remains of its requests stays; more tokens outdate the ones
that are held. -/
theorem mono (h : Chain o lagging start issued originals programs fresh fetchers policies)
    {issued' : Nat} {programs' : List (Program interface (Result α))} {fresh' : Prop}
    (hprograms : ∀ i ∈ fetchers, programs'[i]? = programs[i]?) (hissued : issued ≤ issued')
    (hfresh : issued = issued' → fresh → fresh') :
    Chain o lagging start issued' originals programs' fresh' fetchers policies := by
  -- Induction on the chain: each link keeps its request, and its token is outdated if it was.
  induction h generalizing fresh' with
  | nil => exact .nil
  | failed f hnow hrest ih =>
    obtain ⟨hhead, htail⟩ := List.forall_mem_cons.mp hprograms
    exact .failed f (hhead.trans hnow) (ih htail hfresh)
  | committed original value horiginal hnow halone hrest ih =>
    obtain ⟨hhead, htail⟩ := List.forall_mem_cons.mp hprograms
    exact .committed original value horiginal (hhead.trans hnow) halone (ih htail fun _ h => h)
  | pending t fetched changed value n horiginal hfetched hresolve hnow hn hnfresh hrest ih =>
    obtain ⟨hhead, htail⟩ := List.forall_mem_cons.mp hprograms
    refine .pending t fetched changed value n horiginal hfetched hresolve (hhead.trans hnow)
      (hn.trans hissued) (fun heq => hfresh (by omega) (hnfresh (by omega))) (ih htail fun _ h => h)

theorem not_fetching (h : Chain o lagging start issued originals programs fresh fetchers policies)
    {i : Nat} (hi : i ∈ fetchers) {name : String}
    {rest : Result (Policy × ProtectionToken) → Program interface (Result α)} :
    programs[i]? ≠ some (.ask (I := interface) (.fetch name) rest) := by
  intro hnow
  -- Whoever is in the chain has fetched: it is done, or it wants to store.
  induction h with
  | nil => cases hi
  | failed f hhead hrest ih =>
    rcases List.mem_cons.mp hi with rfl | htail
    · cases hhead.symm.trans hnow
    · exact ih htail
  | committed original value horiginal hhead halone hrest ih =>
    rcases List.mem_cons.mp hi with rfl | htail
    · cases hhead.symm.trans hnow
    · exact ih htail
  | pending t fetched changed value n horiginal hfetched hresolve hhead hn hnfresh hrest ih =>
    rcases List.mem_cons.mp hi with rfl | htail
    · cases hhead.symm.trans hnow
    · exact ih htail

theorem set (h : Chain o lagging start issued originals programs fresh fetchers policies) {i : Nat}
    (hi : i ∉ fetchers) (program : Program interface (Result α)) :
    Chain o lagging start issued originals (programs.set i program) fresh fetchers policies := by
  refine h.mono (fun other hother => ?_) le_rfl fun _ hfresh => hfresh
  exact List.getElem?_set_ne (ne_of_mem_of_not_mem hother hi).symm

/-- A request that fetches becomes the latest one. With the next token, all others are outdated. -/
theorem fetched {s : PolicyStore}
    (h : Chain o s.lagging start s.issued originals programs (s.lagging = false) fetchers
      s.policies)
    {i : Nat} (hi : i ∉ fetchers) (hlength : i < programs.length) {t : Transaction α}
    (horiginal : originals[i]? = some t.program) :
    Chain o s.lagging start (s.fetch t.name).2.issued originals
      (programs.set i (t.proceed (s.fetch t.name).1)) (s.lagging = false) (i :: fetchers)
      (s.fetch t.name).2.policies := by
  have hset (program : Program interface (Result α)) :
      (programs.set i program)[i]? = some program := List.getElem?_set_self hlength
  cases hget : s.policies.lookup t.name with
  | none =>
    -- No token is issued, so whoever was the latest one still is.
    have hfetch : s.fetch t.name = (.error PolicyStore.unknownPolicy, s) := by
      rw [PolicyStore.fetch, PolicyStore.get?, hget]
    rw [hfetch]
    exact .failed _ (hset _) (h.set hi _)
  | some policy =>
    have hfetch : s.fetch t.name = (.ok (policy, PolicyStore.token (s.issued + 1)),
        { s with issued := s.issued + (if s.lagging then 2 else 1) }) := by
      rw [PolicyStore.fetch, PolicyStore.get?, hget]
    have hissued : s.issued + 1 ≤ s.issued + (if s.lagging then 2 else 1) := by
      split <;> omega
    have hfresh : s.issued + 1 = s.issued + (if s.lagging then 2 else 1) → s.lagging = false := by
      cases s.lagging <;> simp
    rw [hfetch]
    show Chain _ _ _ (s.issued + (if s.lagging then 2 else 1)) _ (programs.set i
      (t.follow (PolicyStore.token (s.issued + 1)) (t.resolve policy))) _ _ s.policies
    -- Now that one more token is issued, nobody before has the newest one.
    have hrest (program : Program interface (Result α)) {fresh : Prop} :
        Chain o s.lagging start (s.issued + (if s.lagging then 2 else 1)) originals
          (programs.set i program) fresh fetchers s.policies :=
      (h.set hi program).mono (fun _ _ => rfl) (by omega) fun heq => by omega
    cases hresolve : t.resolve policy with
    | error f => exact .failed f (hset _) (hrest _)
    | ok resolved =>
      -- It is done if there is nothing to store, and else holds the token that was issued.
      obtain ⟨value, _ | changed⟩ := resolved
      · exact .committed t.program value horiginal (hset _)
          (Transaction.alone_unchanged hget hresolve) (hrest _)
      · exact .pending t policy changed value _ horiginal hget hresolve (hset _) hissued hfresh
          (hrest _)

/-- A request whose policy is rejected fails, and nothing changes. -/
theorem rejected (h : Chain o lagging start issued originals programs fresh fetchers policies)
    (hnodup : fetchers.Nodup) {i : Nat} (hi : i ∈ fetchers) {policy : Policy}
    {token : ProtectionToken} {rest : Result Unit → Program interface (Result α)}
    (hstore : programs[i]? = some (.ask (I := interface) (.store policy token) rest))
    (f : Failure) :
    Chain o lagging start issued originals (programs.set i (rest (.error f))) fresh fetchers
      policies := by
  have hlength : i < programs.length := (List.getElem?_eq_some_iff.mp hstore).1
  induction h with
  | nil => cases hi
  | @failed fresh j fetchers policies g hnow hrest ih =>
    obtain ⟨hj, hnodup'⟩ := List.nodup_cons.mp hnodup
    have hne : i ≠ j := fun heq => by cases hstore.symm.trans (heq ▸ hnow)
    exact .failed g (by rw [List.getElem?_set_ne hne, hnow])
      (ih hnodup' ((List.mem_cons.mp hi).resolve_left hne))
  | @committed fresh j fetchers before after original value horiginal hnow halone hrest ih =>
    obtain ⟨hj, hnodup'⟩ := List.nodup_cons.mp hnodup
    have hne : i ≠ j := fun heq => by cases hstore.symm.trans (heq ▸ hnow)
    exact .committed original value horiginal (by rw [List.getElem?_set_ne hne, hnow]) halone
      (ih hnodup' ((List.mem_cons.mp hi).resolve_left hne))
  | @pending fresh j fetchers policies t fetched changed value n horiginal hfetched hresolve hnow hn
      hnfresh hrest ih =>
    obtain ⟨hj, hnodup'⟩ := List.nodup_cons.mp hnodup
    by_cases heq : i = j
    -- It held the policies as they were, and it leaves them so.
    · subst heq
      cases hstore.symm.trans hnow
      refine .failed (t.failed f) (List.getElem?_set_self hlength) ?_
      exact (hrest.set hj _).mono (fun _ _ => rfl) le_rfl fun _ h => h.elim
    · exact .pending t fetched changed value n horiginal hfetched hresolve
        (by rw [List.getElem?_set_ne heq, hnow]) hn hnfresh
        (ih hnodup' ((List.mem_cons.mp hi).resolve_left heq))

/-- A request whose policy is stored with the newest token is the latest one, and the policies are
then as if it had been alone. -/
theorem accepted (h : Chain o lagging start issued originals programs fresh fetchers policies)
    (hstrict : fresh → lagging = false) (hnodup : fetchers.Nodup) {i : Nat} (hi : i ∈ fetchers)
    {policy : Policy} {rest : Result Unit → Program interface (Result α)}
    (hstore : programs[i]? =
      some (.ask (I := interface) (.store policy (PolicyStore.token issued)) rest)) :
    fresh ∧ Chain o lagging start issued originals (programs.set i (rest (.ok ()))) fresh fetchers
      (PolicyStore.putIn (PolicyStore.nameOf policy) policy policies) := by
  have hlength : i < programs.length := (List.getElem?_eq_some_iff.mp hstore).1
  induction h with
  | nil => cases hi
  | @failed fresh j fetchers policies g hnow hrest ih =>
    obtain ⟨hj, hnodup'⟩ := List.nodup_cons.mp hnodup
    have hne : i ≠ j := fun heq => by cases hstore.symm.trans (heq ▸ hnow)
    obtain ⟨hfresh, hchain⟩ := ih hstrict hnodup' ((List.mem_cons.mp hi).resolve_left hne)
    exact ⟨hfresh, .failed g (by rw [List.getElem?_set_ne hne, hnow]) hchain⟩
  -- Behind a request that succeeded or is about to store, no token is the newest one.
  | @committed fresh j fetchers before after original value horiginal hnow halone hrest ih =>
    obtain ⟨hj, hnodup'⟩ := List.nodup_cons.mp hnodup
    have hne : i ≠ j := fun heq => by cases hstore.symm.trans (heq ▸ hnow)
    exact (ih False.elim hnodup' ((List.mem_cons.mp hi).resolve_left hne)).1.elim
  | @pending fresh j fetchers policies t fetched changed value n horiginal hfetched hresolve hnow hn
      hnfresh hrest ih =>
    obtain ⟨hj, hnodup'⟩ := List.nodup_cons.mp hnodup
    by_cases heq : i = j
    -- Its token is the newest one, so it is the latest one, and it does what it would do alone.
    · subst heq
      have hsame := Option.some.inj (hstore.symm.trans hnow)
      simp only [Transaction.follow, Program.ask.injEq, Call.store.injEq] at hsame
      obtain ⟨⟨rfl, htoken⟩, hrest'⟩ := hsame
      obtain rfl : issued = n := PolicyStore.token_inj htoken
      obtain rfl := eq_of_heq hrest'
      obtain rfl : lagging = false := hstrict (hnfresh rfl)
      exact ⟨hnfresh rfl, .committed t.program value horiginal (List.getElem?_set_self hlength)
        (Transaction.alone_stored hfetched hresolve) (hrest.set hj _)⟩
    · exact (ih False.elim hnodup' ((List.mem_cons.mp hi).resolve_left heq)).1.elim

end Chain

end Roster
