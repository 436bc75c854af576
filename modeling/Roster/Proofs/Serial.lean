import Roster.Proofs.Fetches

/-!
# No update is lost

Requests that take turns on a store that looks at tokens come to the same policies as those of them
that succeed in changing something, one after another in the order in which they fetched, and there
each of them succeeds as well (`no_lost_update`).

The invariant (`Ordered`) says that what remains of the requests that fetched is a chain, and that
the others have not begun as far as the store is concerned. A turn either does nothing to it, or
adds a link, or is that of a request that stores and changes the latest link (`Ordered.take`). In
the end no request wants to store any more, and the chain is read from its start to its end
(`succeed_chain`).
-/

namespace Roster

open Service

namespace Service

/-! ### One after another -/

/-- Performs requests one after another: their results, and the state in the end. -/
def performEach {σ : Type} (handler : Handler interface σ) :
    List Request → σ → List (Result (Option Listing)) × σ
  | [], s => ([], s)
  | r :: rest, s =>
    let run := r.perform.run.run handler s
    let (results, last) := performEach handler rest run.state
    (run.value :: results, last)

theorem performEach_append {σ : Type} (handler : Handler interface σ) (first second : List Request)
    (s : σ) :
    performEach handler (first ++ second) s =
      ((performEach handler first s).1 ++
          (performEach handler second (performEach handler first s).2).1,
        (performEach handler second (performEach handler first s).2).2) := by
  induction first generalizing s with
  | nil => rfl
  | cons r rest ih => simp [performEach, ih]

/-- Whether a request asked to change members and succeeded. -/
def succeeded : Request → Option (Result (Option Listing)) → Bool
  | .change _ _, some (.ok _) => true
  | _, _ => false

/-- The requests that asked to change members and succeeded, in a given order. -/
def committed (requests : List Request) (results : List (Option (Result (Option Listing))))
    (order : List Nat) : List Request :=
  order.filterMap fun i => requests[i]?.filter fun r => succeeded r results[i]?.join

/-- The places of requests: those that never fetched, and then those that did in the order of their
fetches. -/
def arrangement (n : Nat) (fetchers : List Nat) : List Nat :=
  (List.range n).filter (· ∉ fetchers) ++ fetchers

theorem committed_append (requests : List Request)
    (results : List (Option (Result (Option Listing)))) (first second : List Nat) :
    committed requests results (first ++ second) =
      committed requests results first ++ committed requests results second :=
  List.filterMap_append

end Service

/-! ### The invariant -/

/-- What remains of requests at the start. -/
def remains (o : Oracle) (requests : List Request) :
    List (Program interface (Result (Option Listing))) :=
  requests.map fun r => r.perform.run.settle o

/-- Requests that have taken turns from a store on: those that fetched, the latest first, form a
chain, and of the others as much remains as at the start. -/
structure Ordered (o : Oracle) (s : PolicyStore) (requests : List Request)
    (programs : List (Program interface (Result (Option Listing)))) (store : PolicyStore)
    (fetchers : List Nat) : Prop where
  /-- There are as many programs as requests. -/
  length : programs.length = requests.length
  /-- The store lags if it did at the start. -/
  lagging : store.lagging = s.lagging
  /-- Only requests fetch. -/
  lt_length : ∀ i ∈ fetchers, i < requests.length
  /-- A request fetches once. -/
  nodup : fetchers.Nodup
  /-- Of a request that has not fetched as much remains as at the start. -/
  waiting : ∀ i, i ∉ fetchers → programs[i]? = (remains o requests)[i]?
  /-- The requests that fetched form a chain. -/
  chain : Chain o s.lagging s.policies store.issued (remains o requests) programs
    (s.lagging = false) fetchers store.policies

/-- What remains of a request at the start is a result or a transaction. -/
theorem exists_remainder {o : Oracle} {requests : List Request} {i : Nat}
    {original : Program interface (Result (Option Listing))}
    (h : (remains o requests)[i]? = some original) :
    ∃ r, requests[i]? = some r ∧ original = r.perform.run.settle o ∧
      Remainder r.isChange original := by
  rw [remains, List.getElem?_map] at h
  obtain ⟨r, hr, rfl⟩ := Option.map_eq_some_iff.mp h
  exact ⟨r, hr, rfl, r.remainder⟩

namespace Ordered

variable {o : Oracle} {s store : PolicyStore} {requests : List Request}
  {programs : List (Program interface (Result (Option Listing)))} {fetchers : List Nat} {i : Nat}

theorem start : Ordered o s requests (remains o requests) s [] where
  length := List.length_map _
  lagging := rfl
  lt_length := by simp
  nodup := List.nodup_nil
  waiting _ _ := rfl
  chain := .nil

/-- A request that fetches becomes the latest one that did. -/
theorem fetches (h : Ordered o s requests programs store fetchers) {name : String}
    {rest : Result (Policy × ProtectionToken) → Program interface (Result (Option Listing))}
    (hnow : programs[i]? = some (.ask (I := interface) (.fetch name) rest)) :
    Ordered o s requests (programs.set i (rest (store.fetch name).1)) (store.fetch name).2
      (i :: fetchers) := by
  -- A request in the chain is past its fetch.
  have hi : i ∉ fetchers := fun hi => h.chain.not_fetching hi hnow
  have hlength : i < programs.length := (List.getElem?_eq_some_iff.mp hnow).1
  have horiginal := (h.waiting i hi).symm.trans hnow
  -- What remains of it has not moved, so it is a transaction that begins with this fetch.
  obtain ⟨r, -, -, hremainder⟩ := exists_remainder horiginal
  cases hremainder with
  | settled _ hdone => cases hdone
  | transaction t ht _ =>
    cases ht
    refine ⟨List.length_set.trans h.length, (store.lagging_fetch _).trans h.lagging,
      List.forall_mem_cons.mpr ⟨h.length ▸ hlength, h.lt_length⟩,
      List.nodup_cons.mpr ⟨hi, h.nodup⟩, fun j hj => ?_, ?_⟩
    · -- The others that have not fetched are where they were.
      obtain ⟨hne, hother⟩ := not_or.mp (mt List.mem_cons.mpr hj)
      rw [List.getElem?_set_ne (Ne.symm hne)]
      exact h.waiting j hother
    · -- The chain grows by the request, whose token is the newest one now.
      have hchain := h.chain
      rw [← h.lagging] at hchain ⊢
      exact hchain.fetched hi hlength horiginal

/-- A request that stores is the latest one that fetched, or is rejected. -/
theorem stores (h : Ordered o s requests programs store fetchers) {policy : Policy}
    {token : ProtectionToken} {rest : Result Unit → Program interface (Result (Option Listing))}
    (hnow : programs[i]? = some (.ask (I := interface) (.store policy token) rest)) :
    Ordered o s requests (programs.set i (rest (store.store policy token).1))
      (store.store policy token).2 fetchers := by
  -- What remains of a request that has not fetched begins with its fetch.
  have hi : i ∈ fetchers := by
    by_contra hi
    obtain ⟨r, -, -, hremainder⟩ := exists_remainder ((h.waiting i hi).symm.trans hnow)
    cases hremainder with
    | settled _ hdone => cases hdone
    | transaction t ht _ => cases ht
  -- Only a program that has fetched is replaced.
  have hwaiting (program) (j : Nat) (hj : j ∉ fetchers) :
      (programs.set i program)[j]? = (remains o requests)[j]? := by
    rw [List.getElem?_set_ne (ne_of_mem_of_not_mem hi hj)]
    exact h.waiting j hj
  -- The token is the one issued last, or the store turns the policy down.
  by_cases htoken : token = PolicyStore.token store.issued
  · have hok : store.store policy token =
        (.ok (), store.put (PolicyStore.nameOf policy) policy) := if_pos htoken
    rw [hok]
    subst htoken
    obtain ⟨-, hchain⟩ := h.chain.accepted id h.nodup hi hnow
    exact ⟨List.length_set.trans h.length, h.lagging, h.lt_length, h.nodup, hwaiting _, hchain⟩
  · have hrejected : store.store policy token = (.error PolicyStore.outdatedToken, store) :=
      if_neg htoken
    rw [hrejected]
    exact ⟨List.length_set.trans h.length, h.lagging, h.lt_length, h.nodup, hwaiting _,
      h.chain.rejected h.nodup hi hnow _⟩

/-- A turn of a program: it becomes the latest one that fetched if it fetches, and the order stays
if it does not. -/
theorem take {p : Pool interface PolicyStore (Result (Option Listing))}
    (h : Ordered o s requests (p.programs.map (Program.settle o)) p.state fetchers) (i : Nat) :
    Ordered o s requests ((p.take o.answer (.program i)).programs.map (Program.settle o))
      (p.take o.answer (.program i)).state
      ((if (p.programs[i]?.bind Program.next?).any Call.isFetch then [i] else []) ++ fetchers) := by
  -- A turn of a program that is not there changes nothing.
  cases hprogram : p.programs[i]? with
  | none =>
    rw [Pool.take, hprogram]
    exact h
  | some program =>
    have hnow : (p.programs.map (Program.settle o))[i]? = some (program.settle o) := by
      rw [List.getElem?_map, hprogram]
      rfl
    rw [Pool.take, hprogram]
    simp only [Option.bind_some, List.map_set]
    cases program.moves o p.state with
    -- What remains of the program is put in the place of what remained of it, and that is the same.
    | silent hnext hsettle hstore =>
      obtain ⟨_, hget⟩ := List.getElem?_eq_some_iff.mp hnow
      simp only [hnext, Bool.false_eq_true, if_false, List.nil_append, hstore, hsettle]
      rw [← hget, List.set_getElem_self]
      exact h
    | fetches name rest hnext hbefore hafter hstore =>
      simp only [hnext, if_true, List.singleton_append, hstore, hafter]
      exact h.fetches (hbefore ▸ hnow)
    | stores policy token rest hnext hbefore hafter hstore =>
      simp only [hnext, Bool.false_eq_true, if_false, List.nil_append, hstore, hafter]
      exact h.stores (hbefore ▸ hnow)

theorem run {p : Pool interface PolicyStore (Result (Option Listing))}
    (h : Ordered o s requests (p.programs.map (Program.settle o)) p.state fetchers)
    (turns : List Nat) :
    Ordered o s requests ((p.run o.answer (turns.map .program)).programs.map (Program.settle o))
      (p.run o.answer (turns.map .program)).state
      ((p.callers Call.isFetch o.answer (turns.map .program)).reverse ++ fetchers) := by
  -- The fetchers are kept with the latest first, so the callers come out in reverse.
  induction turns generalizing p fetchers with
  | nil => exact h
  | cons i turns ih =>
    rw [List.map_cons, Pool.run_cons, Pool.callers, List.reverse_append, List.append_assoc]
    have hreverse (b : Bool) : (if b then [i] else []).reverse = if b then [i] else [] := by
      cases b <;> rfl
    rw [hreverse]
    exact ih (h.take i)

end Ordered

/-! ### The requests one after another -/

section Replay

variable {o : Oracle} {lagging : Bool} {start policies : List (String × Policy)} {issued : Nat}
  {requests : List Request} {programs : List (Program interface (Result (Option Listing)))}
  {results : List (Option (Result (Option Listing)))} {fresh : Prop} {fetchers : List Nat} {i : Nat}
  {r : Request}

/-- The requests succeed one after another and change the policies as told, whatever the number of
tokens that have been issued. -/
def Succeed (o : Oracle) (lagging : Bool) (requests : List Request)
    (before after : List (String × Policy)) : Prop :=
  ∀ issued, (∀ result ∈ (performEach o.answer requests ⟨before, issued, lagging⟩).1,
      ∃ value, result = .ok value) ∧
    ∃ issued', (performEach o.answer requests ⟨before, issued, lagging⟩).2 =
      ⟨after, issued', lagging⟩

theorem succeed_nil : Succeed o lagging [] start start :=
  fun issued => ⟨by simp [performEach], issued, rfl⟩

theorem succeed_singleton {after : List (String × Policy)} {value : Option Listing}
    (h : Alone o lagging r.perform.run start after (.ok value)) :
    Succeed o lagging [r] start after := by
  intro issued
  obtain ⟨issued', hvalue, hstate⟩ := h issued
  exact ⟨by simp [performEach, hvalue], issued', hstate⟩

theorem Succeed.append {first second : List Request} {middle after : List (String × Policy)}
    (hfirst : Succeed o lagging first start middle)
    (hsecond : Succeed o lagging second middle after) :
    Succeed o lagging (first ++ second) start after := by
  intro issued
  obtain ⟨hresults, issued', hstate⟩ := hfirst issued
  obtain ⟨hresults', issued'', hstate'⟩ := hsecond issued'
  rw [performEach_append, hstate]
  exact ⟨List.forall_mem_append.mpr ⟨hresults, hresults'⟩, issued'', hstate'⟩

theorem committed_singleton :
    committed requests results [i] =
      (requests[i]?.filter fun r => succeeded r results[i]?.join).toList := by
  rw [committed, List.filterMap_cons, List.filterMap_nil]
  cases requests[i]?.filter fun r => succeeded r results[i]?.join <;> rfl

theorem committed_of_error {f : Failure} (h : results[i]?.join = some (.error f)) :
    committed requests results [i] = [] := by
  rw [committed_singleton, h]
  rcases requests[i]? with _ | _ | _ <;> rfl

/-- A request that succeeded does alone what it did, as far as it is committed: if it asked to
change members it is run, and if it did not there is nothing to be done. -/
theorem succeed_committed {original : Program interface (Result (Option Listing))}
    {before after : List (String × Policy)} {value : Option Listing}
    (horiginal : (remains o requests)[i]? = some original)
    (hresult : results[i]?.join = some (.ok value))
    (halone : Alone o lagging original before after (.ok value)) :
    Succeed o lagging (committed requests results [i]) before after := by
  -- A request that asked to change members is the one committed; a listing is left out.
  obtain ⟨r, hr, rfl, hremainder⟩ := exists_remainder horiginal
  cases r with
  | change caller m =>
    have hcommitted : committed requests results [i] = [.change caller m] := by
      rw [committed_singleton, hr, hresult]
      rfl
    rw [hcommitted]
    exact succeed_singleton (alone_settle.mp halone)
  | list space page path =>
    have hcommitted : committed requests results [i] = [] := by
      rw [committed_singleton, hr]
      rfl
    -- A listing stores nothing, so the policies are the same without it.
    have hsame : after = before := by
      cases hremainder with
      | settled result hdone =>
        rw [hdone] at halone
        obtain ⟨issued', -, hstate⟩ := halone 0
        exact (congrArg PolicyStore.policies hstate).symm
      | transaction t ht hreads =>
        rw [ht] at halone
        exact (hreads rfl).eq_of_alone halone
    rw [hcommitted, hsame]
    exact succeed_nil

/-- Where nobody wants to store any more, what is committed succeeds in the order of the fetches and
leads to the policies that the chain leads to. -/
theorem succeed_chain
    (h : Chain o lagging start issued (remains o requests) programs fresh fetchers policies)
    (hresults : ∀ i ∈ fetchers, ∃ result, results[i]?.join = some result ∧
      programs[i]? = some (.done result)) :
    Succeed o lagging (committed requests results fetchers.reverse) start policies := by
  -- One case for each link of the chain, the latest request at the end of the row.
  induction h with
  | nil => exact succeed_nil
  | failed f hnow hrest ih =>
    -- A request that failed is not committed, and the policies are those before it.
    obtain ⟨⟨result, hresult, hdone⟩, htail⟩ := List.forall_mem_cons.mp hresults
    cases hnow.symm.trans hdone
    rw [List.reverse_cons, committed_append, committed_of_error hresult, List.append_nil]
    exact ih htail
  | committed original value horiginal hnow halone hrest ih =>
    -- A request that succeeded does alone what it did in its turn.
    obtain ⟨⟨result, hresult, hdone⟩, htail⟩ := List.forall_mem_cons.mp hresults
    cases hnow.symm.trans hdone
    rw [List.reverse_cons, committed_append]
    exact (ih htail).append (succeed_committed horiginal hresult halone)
  | pending t fetched changed value n horiginal hfetched hresolve hnow hn hfresh hrest ih =>
    -- A request that still wants to store has not come to its end.
    obtain ⟨⟨result, -, hdone⟩, -⟩ := List.forall_mem_cons.mp hresults
    cases hnow.symm.trans hdone

/-- Requests that never fetched change nothing. -/
theorem succeed_waiting {order : List Nat}
    (horder : ∀ i ∈ order, ∃ result, results[i]?.join = some result ∧
      (remains o requests)[i]? = some (.done result)) :
    Succeed o lagging (committed requests results order) start start := by
  induction order with
  | nil => exact succeed_nil
  | cons i order ih =>
    obtain ⟨⟨result, hresult, hdone⟩, htail⟩ := List.forall_mem_cons.mp horder
    rw [← List.singleton_append, committed_append]
    refine Succeed.append ?_ (ih htail)
    -- Without a fetch nothing is stored, whether the request failed or succeeded.
    cases result with
    | error f =>
      rw [committed_of_error hresult]
      exact succeed_nil
    | ok value => exact succeed_committed hdone hresult (alone_done _)

end Replay

theorem Program.settle_of_value? {α : Type} {o : Oracle} {p : Program interface α} {value : α}
    (h : p.value? = some value) : p.settle o = .done value := by
  induction p with
  | done other => exact congrArg Program.done (Option.some.inj h)
  | note event rest ih => exact ih h
  | ask call rest => cases h

theorem Service.arrangement_perm {n : Nat} {fetchers : List Nat} (hnodup : fetchers.Nodup)
    (hlt : ∀ i ∈ fetchers, i < n) : (arrangement n fetchers).Perm (List.range n) := by
  -- No place is in both parts, and none is in a part twice.
  have hall : (arrangement n fetchers).Nodup := by
    refine List.nodup_append.mpr ⟨List.nodup_range.filter _, hnodup, fun i hi j hj heq => ?_⟩
    exact of_decide_eq_true (List.mem_filter.mp hi).2 (heq ▸ hj)
  refine (List.perm_ext_iff_of_nodup hall List.nodup_range).mpr fun i => ?_
  rw [arrangement, List.mem_append, List.mem_filter, List.mem_range, decide_eq_true_iff]
  constructor
  · rintro (⟨hi, -⟩ | hi)
    · exact hi
    · exact hlt i hi
  · intro hi
    exact (em (i ∈ fetchers)).symm.imp_left fun hfetched => ⟨hi, hfetched⟩

/-- Where all programs have come to their ends, what remains of them is their values. -/
theorem exists_result {o : Oracle} {p : Pool interface PolicyStore (Result (Option Listing))}
    (hfinished : none ∉ p.values) {i : Nat} (hi : i < p.programs.length) :
    ∃ result, p.values[i]?.join = some result ∧
      (p.programs.map (Program.settle o))[i]? = some (.done result) := by
  have hprogram : p.programs[i]? = some p.programs[i] := List.getElem?_eq_getElem hi
  -- A program without a value has not come to its end.
  cases hvalue : p.programs[i].value? with
  | none =>
    exact absurd (List.mem_map.mpr ⟨_, List.mem_of_getElem? hprogram, hvalue⟩) hfinished
  | some result =>
    refine ⟨result, ?_, ?_⟩
    · rw [Pool.values, List.getElem?_map, hprogram, Option.map_some, hvalue]
      rfl
    · rw [List.getElem?_map, hprogram, Option.map_some, Program.settle_of_value? hvalue]

/-- **No lost update.** Where directory and authorizer give fixed answers and the store looks at
tokens, requests that have taken turns to their ends leave the policies that those of them leave
which succeeded in changing members, one after another in the order of their fetches. There every
one of them succeeds as well. -/
theorem Service.no_lost_update (o : Oracle) (s : PolicyStore) (requests : List Request)
    (turns : List Nat) :
    let start : Pool interface PolicyStore (Result (Option Listing)) :=
      ⟨s, requests.map (·.perform.run)⟩
    let last := start.run o.answer (turns.map .program)
    let order := arrangement requests.length
      (start.callers Call.isFetch o.answer (turns.map .program))
    let serial := performEach o.answer (committed requests last.values order) s
    none ∉ last.values →
      order.Perm (List.range requests.length) ∧
        (∀ result ∈ serial.1, ∃ value, result = .ok value) ∧
        serial.2.policies = last.state.policies := by
  intro start last order serial hfinished
  -- At the start, what remains of the programs is what remains of the requests.
  have hstart : start.programs.map (Program.settle o) = remains o requests := List.map_map
  have hordered := (hstart ▸ Ordered.start : Ordered o s requests
    (start.programs.map (Program.settle o)) start.state []).run turns
  rw [List.append_nil] at hordered
  have hlength : last.programs.length = requests.length := by
    rw [← hordered.length, List.length_map]
  have hdone (i : Nat) (hi : i < requests.length) :
      ∃ result, last.values[i]?.join = some result ∧
        (last.programs.map (Program.settle o))[i]? = some (.done result) :=
    exists_result hfinished (hlength ▸ hi)
  have hnodup : (start.callers Call.isFetch o.answer (turns.map .program)).Nodup :=
    (List.reverse_perm _).nodup_iff.mp hordered.nodup
  have hlt (i : Nat) (hi : i ∈ start.callers Call.isFetch o.answer (turns.map .program)) :
      i < requests.length := hordered.lt_length i (List.mem_reverse.mpr hi)
  -- The requests that never fetched come first and change nothing.
  have hwaiting : Succeed o s.lagging (committed requests last.values
      ((List.range requests.length).filter
        (· ∉ start.callers Call.isFetch o.answer (turns.map .program)))) s.policies s.policies := by
    refine succeed_waiting fun i hi => ?_
    obtain ⟨hrange, hnever⟩ := List.mem_filter.mp hi
    obtain ⟨result, hresult, hremains⟩ := hdone i (List.mem_range.mp hrange)
    refine ⟨result, hresult, ?_⟩
    rw [← hremains]
    exact (hordered.waiting i (mt List.mem_reverse.mp (of_decide_eq_true hnever))).symm
  -- The chain of those that fetched is read from its start to its end.
  have hfetchers := succeed_chain hordered.chain fun i hi => hdone i (hordered.lt_length i hi)
  rw [List.reverse_reverse] at hfetchers
  -- Those that never fetched, and behind them those that did, are the arrangement.
  have hserial := hwaiting.append hfetchers
  rw [← committed_append] at hserial
  obtain ⟨hresults, issued', hstate⟩ := hserial s.issued
  have hpolicies := congrArg PolicyStore.policies hstate
  exact ⟨arrangement_perm hnodup hlt, hresults, hpolicies⟩

/-- Two requests, each to add a guest. -/
def Service.twoAdditions : List Request :=
  [.change none (.add (Uuid.uniform 0).text (Uuid.uniform 2).text),
    .change none (.add (Uuid.uniform 0).text (Uuid.uniform 3).text)]

/-- Where both requests fetch before one of them stores, the one whose token is outdated fails, and
what is left is what the other one leaves. -/
theorem Service.one_of_two_additions :
    let start : Pool interface PolicyStore (Result (Option Listing)) :=
      ⟨Backend.sample.store, twoAdditions.map (·.perform.run)⟩
    let turns := [0, 0, 0, 1, 1, 1, 0, 0, 1, 1]
    let last := start.run Backend.sample.oracle.answer (turns.map .program)
    let order := arrangement twoAdditions.length
      (start.callers Call.isFetch Backend.sample.oracle.answer (turns.map .program))
    last.values.map (Option.map Except.toBool) = [some false, some true] ∧
      (performEach Backend.sample.oracle.answer (committed twoAdditions last.values order)
        Backend.sample.store).2.policies = last.state.policies := by
  have hvalues : (((Pool.mk Backend.sample.store (twoAdditions.map (·.perform.run))).run
      Backend.sample.oracle.answer ([0, 0, 0, 1, 1, 1, 0, 0, 1, 1].map .program)).values.map
        (Option.map Except.toBool)) = [some false, some true] := by decide +kernel
  -- The values are evaluated once, and that both have come to their ends is read off them.
  refine ⟨hvalues, (no_lost_update _ _ twoAdditions _ fun hnone => ?_).2.2⟩
  have hmap := List.mem_map_of_mem (f := Option.map Except.toBool) hnone
  rw [hvalues] at hmap
  simp at hmap

end Roster
