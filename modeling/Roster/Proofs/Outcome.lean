import Roster.Proofs.Backend
import Roster.Proofs.Transaction

/-!
# What comes of a request to change members

Where lookups and questions for leave have fixed answers, a request to change members is decided by
them and by the policy that it fetches:

* `Oracle.clearance` — what comes of it before the policy is fetched: why it is turned down, or the
  resource that names the policy.
* `Oracle.changes` — what it makes of a policy.

What remains of the request is the failure in its clearance, or one transaction on the policy of the
resource (`alter_reduces`). That is shown along the way the request is built: an attempt of which a
result remains, followed by one that a result decides, is decided by the two results in a row
(`Attempt.Reduces.bind`).

A backend gives fixed answers as long as it is the same apart from its store, and a program does not
change anything else of it (`Backend.exists_holding_run`). So what remains of a request can be run in
its place (`Backend.run_settle`), and whether the request succeeds and what it leaves can be said
without the program: `Backend.commits_iff`.
-/

namespace Roster

open Service Attempt

variable {o : Oracle} {change : Change} {place text : String} {caller : Option Caller}
  {space : Uuid} {texts : List String} {resource : SpaceResource}

@[simp] theorem Result.through_eq_ok {α : Type} {r : Result α} {value : α} :
    Result.through place r = .ok value ↔ r = .ok value :=
  mapError_eq_ok

/-! ### What the answers decide -/

namespace Oracle

/-- What comes of changing a policy by each identity in turn. -/
def changes (o : Oracle) (change : Change) :
    List String → Policy × Bool → Result (Policy × Bool)
  | [], state => .ok state
  | text :: rest, (policy, changed) =>
    (idOf .malformedIdentity text).bind fun id =>
      (entryOf .notFound .unknownIdentity (o.find (.identity id))).bind fun _ =>
        ((change.apply id policy).mapError (·.failure)).bind fun state =>
          o.changes change rest (state.1, changed || state.2)

/-- The resource of a space for a caller who has leave, or why there is none. -/
def locate (o : Oracle) (caller : Option Caller) (space : Uuid) : Result SpaceResource :=
  (leaveOf (o.authorize caller space)).bind fun _ =>
    entryOf .notFound .unknownResource (o.find (.resource space))

/-- What comes of a request before a policy is fetched: the resource of its space, or why the
request is turned down. -/
def clearance (o : Oracle) (change : Change) (place : String) (caller : Option Caller) (text : String)
    (texts : List String) : Result SpaceResource :=
  match change with
  | .add => Result.through place ((idOf .malformedSpace text).bind (o.locate caller))
  | .remove =>
    (idOf .malformedSpace text).bind fun space =>
      Result.through place <| (removableOf texts (o.find (.space space))).bind fun _ =>
        o.locate caller space

/-- The text names a space, a removal leaves the owner of the space alone, the caller has leave, and
the space has the resource. -/
def Clears (o : Oracle) (change : Change) (caller : Option Caller) (text : String)
    (texts : List String) (resource : SpaceResource) : Prop :=
  ∃ space, Uuid.parse? text = some space ∧
    (change = .remove → removableOf texts (o.find (.space space)) = .ok ()) ∧
    o.locate caller space = .ok resource

theorem clearance_eq_ok :
    o.clearance change place caller text texts = .ok resource ↔
      o.Clears change caller text texts resource := by
  unfold Clears
  -- Whether the place is around all of the steps or the last ones, a success is one of every step.
  cases change with
  | add =>
    rw [clearance, Result.through_eq_ok, bind_eq_ok]
    simp
  | remove =>
    simp only [clearance, bind_eq_ok, Result.through_eq_ok, idOf_eq_ok, forall_const]
    refine exists_congr fun space => and_congr_right fun _ => ?_
    constructor
    · rintro ⟨⟨⟩, hkept, hlocate⟩
      exact ⟨hkept, hlocate⟩
    · rintro ⟨hkept, hlocate⟩
      exact ⟨(), hkept, hlocate⟩

end Oracle

/-! ### What remains of a request -/

section Remains

variable {α β γ : Type}

theorem Attempt.Settles.bind {x : Action α} {r : Result α} {next : α → Action β}
    {q : α → Result β} (hx : Settles o x r) (hnext : ∀ value, Settles o (next value) (q value)) :
    Settles o (x >>= next) (r.bind q) := by
  cases r with
  | error f => exact settle_bind_of_error hx next
  | ok value => exact (settle_bind_of_ok hx next).trans (hnext value)

/-- What comes of the changes of a policy is settled by the lookups of identities. -/
theorem settles_changeEach (state : Policy × Bool) :
    Settles o (changeEach change texts state) (o.changes change texts state) := by
  -- The flag may be up already, so the induction is for any state of the row.
  induction texts generalizing state with
  | nil => rfl
  | cons text rest ih =>
    obtain ⟨policy, changed⟩ := state
    -- A text is read without a call, so what it is read as is what remains.
    have hread : Settles o (readIdentity text) (idOf .malformedIdentity text) := by
      rw [readIdentity, idOf]
      cases Uuid.parse? text <;> rfl
    rw [changeEach_cons]
    refine hread.bind fun id => ?_
    refine Settles.bind (settles_find (.identity id) _) fun _ => ?_
    exact Settles.bind (settles_ofResult _) fun state => ih _

/-- What remains of an attempt is decided by a result: its failure, or the transaction that goes
with its value. -/
def Attempt.Reduces (o : Oracle) (x : Action β) (r : Result α) (t : α → Transaction β) : Prop :=
  Program.settle o x.run = match r with
    | .error f => .done (.error f)
    | .ok value => (t value).program

namespace Attempt.Reduces

variable {r : Result γ} {t : γ → Transaction β}

/-- An attempt of which a transaction remains, after another one of which a result remains. -/
theorem of_settles {x : Action γ} {next : γ → Action β} (hx : Settles o x r)
    (hnext : ∀ value, Program.settle o (next value).run = (t value).program) :
    Reduces o (x >>= next) r t := by
  cases r with
  | error f => exact settle_bind_of_error hx next
  | ok value => exact (settle_bind_of_ok hx next).trans (hnext value)

theorem bind {x : Action α} {first : Result α} {next : α → Action β} {q : α → Result γ}
    (hx : Settles o x first) (hnext : ∀ value, Reduces o (next value) (q value) t) :
    Reduces o (x >>= next) (first.bind q) t := by
  cases first with
  | error f => exact settle_bind_of_error hx next
  | ok value => exact (settle_bind_of_ok hx next).trans (hnext value)

theorem through {x : Action β} (h : Reduces o x r t) (place : String) :
    Reduces o (x.through place) (Result.through place r) fun value =>
      (t value).map id (Failure.through place) := by
  -- A place is put on the outcome, which the lookups settled do not see.
  have hmap : Program.settle o (x.through place).run =
      Result.through place <$> Program.settle o x.run := settle_map _ _
  unfold Reduces
  rw [hmap, h]
  cases r with
  | error f => rfl
  | ok value =>
    show _ = ((t value).map id (Failure.through place)).program
    rw [(t value).program_map]
    refine congrArg (· <$> (t value).program) (funext fun outcome => ?_)
    cases outcome <;> rfl

end Attempt.Reduces

/-- The transaction that changes the policy of a resource. -/
def Oracle.transaction (o : Oracle) (change : Change) (texts : List String)
    (resource : SpaceResource) : Transaction Unit :=
  .ofChanges resource.policyId fun policy => o.changes change texts (policy, false)

/-- What remains of an update is decided by finding the resource of the space. -/
theorem update_reduces (change : Change) (caller : Option Caller) (space : Uuid)
    (texts : List String) :
    Reduces o (update change caller space texts) (o.locate caller space)
      (o.transaction change texts) := by
  rw [update_eq]
  refine .bind (settles_authorize caller space leaveOf) fun _ => ?_
  refine .of_settles (settles_find (.resource space) _) fun resource : SpaceResource => ?_
  -- From here on policies are fetched and stored.
  refine settle_fetch_bind (o.transaction change texts resource) (fun _ => rfl) ?_
  intro policy token
  have hchanges : Settles o (changeEach change texts (policy, false)) _ :=
    settles_changeEach (policy, false)
  exact settle_changes hchanges space caller token

/-- What remains of a request to change members is decided by its clearance. -/
theorem alter_reduces (change : Change) (place : String) (caller : Option Caller) (text : String)
    (texts : List String) :
    Reduces o (alter change place caller text texts) (o.clearance change place caller text texts)
      fun resource => (o.transaction change texts resource).map id (Failure.through place) := by
  cases change with
  -- To add, the place is around the reading of the space as well.
  | add =>
    rw [alter, readId_eq]
    refine Reduces.through (.bind (settles_ofResult _) fun space => ?_) place
    exact update_reduces .add caller space texts
  -- To remove, the space is read before the place is reached.
  | remove =>
    rw [alter, readId_eq]
    refine .bind (settles_ofResult _) fun space => Reduces.through ?_ place
    rw [keepOwner_eq]
    exact .bind (settles_find (.space space) _) fun _ => update_reduces .remove caller space texts

end Remains

/-! ### Runs against a backend -/

namespace Backend

/-- The backend with other policies and another number of tokens that have been issued. -/
def holding (b : Backend) (policies : List (String × Policy)) (issued : Nat) : Backend :=
  { b with store := { b.store with policies, issued } }

/-- A call leaves a backend the same apart from policies and tokens. -/
theorem exists_holding_answer (call : Call) (b : Backend) :
    ∃ policies issued, (b.answer call).2 = b.holding policies issued := by
  cases call with
  | find lookup => exact ⟨_, _, rfl⟩
  | authorize caller space => exact ⟨_, _, rfl⟩
  | fetch name =>
    -- A fetch issues tokens, if nothing is in its way and the policy is there.
    rw [answer]
    cases b.faults.fetch with
    | some f => exact ⟨_, _, rfl⟩
    | none =>
      rw [PolicyStore.fetch]
      cases b.store.get? name <;> exact ⟨_, _, rfl⟩
  | store policy token =>
    -- A store replaces policies, if nothing is in its way and the token is the newest.
    rw [answer]
    cases b.faults.store with
    | some f => exact ⟨_, _, rfl⟩
    | none =>
      by_cases htoken : token = PolicyStore.token b.store.issued
      · simp only [PolicyStore.store, if_pos htoken]
        exact ⟨_, _, rfl⟩
      · simp only [PolicyStore.store, if_neg htoken]
        exact ⟨_, _, rfl⟩

theorem oracle_answer (call : Call) (b : Backend) : (b.answer call).2.oracle = b.oracle := by
  obtain ⟨policies, issued, hstate⟩ := exists_holding_answer call b
  rw [hstate]
  rfl

variable {α : Type}

/-- A program leaves a backend the same apart from policies and tokens. -/
theorem exists_holding_run (p : Program interface α) (b : Backend) :
    ∃ policies issued, (p.run answer b).state = b.holding policies issued := by
  induction p generalizing b with
  | done value => exact ⟨b.store.policies, b.store.issued, rfl⟩
  | note event rest ih => exact ih b
  | ask call rest ih =>
    -- The states behind one call and behind the rest are joined.
    obtain ⟨policies, issued, hstate⟩ := exists_holding_answer call b
    obtain ⟨policies', issued', hrest⟩ := ih (b.answer call).1 (b.answer call).2
    refine ⟨policies', issued', ?_⟩
    show (Program.run answer (rest (b.answer call).1) (b.answer call).2).state = _
    rw [hrest, hstate]
    rfl

/-- What remains of a program comes to the same against a backend as the program. -/
theorem run_settle (p : Program interface α) (b : Backend) :
    ((p.settle b.oracle).run answer b).value = (p.run answer b).value ∧
      ((p.settle b.oracle).run answer b).state = (p.run answer b).state := by
  induction p generalizing b with
  | done value => exact ⟨rfl, rfl⟩
  | note event rest ih => exact ih b
  | ask call rest ih =>
    -- Lookups and questions for leave are settled, and the other two stay as they are.
    cases call with
    | find lookup => exact ih (b.find lookup) b
    | authorize caller space => exact ih _ b
    | fetch name =>
      have hnext := ih (answer (.fetch name) b).1 (answer (.fetch name) b).2
      rwa [oracle_answer] at hnext
    | store policy token =>
      have hnext := ih (answer (.store policy token) b).1 (answer (.store policy token) b).2
      rwa [oracle_answer] at hnext

end Backend

/-! ### Transactions against a backend -/

/-- The policies after one was put among them under its own name, if there is one. -/
def PolicyStore.putOwn (changed : Option Policy) (policies : List (String × Policy)) :
    List (String × Policy) :=
  match changed with
  | some policy => putIn (nameOf policy) policy policies
  | none => policies

theorem PolicyStore.store_eq_ok {s : PolicyStore} {policy : Policy} {t : ProtectionToken} :
    (s.store policy t).1 = .ok () ↔ t = token s.issued := by
  rw [store]
  split <;> simp_all

namespace Backend

/-- Whether a policy can be stored right after it was fetched. -/
def MayStore (b : Backend) : Prop :=
  b.faults.store = none ∧ b.store.lagging = false

/-- The backend after a policy was fetched. -/
def afterFetch (b : Backend) : Backend :=
  b.holding b.store.policies (b.store.issued + if b.store.lagging then 2 else 1)

theorem answer_fetch {b : Backend} {name : String} {policy : Policy} (hfault : b.faults.fetch = none)
    (hget : b.store.get? name = some policy) :
    b.answer (.fetch name) =
      (.ok (policy, PolicyStore.token (b.store.issued + 1)), b.afterFetch) := by
  rw [answer, hfault]
  simp only [PolicyStore.fetch, hget]
  rfl

/-- A fetch that succeeds finds the policy, and no fault is in the way. -/
theorem answer_fetch_eq_ok {b : Backend} {name : String} {policy : Policy} {token : ProtectionToken}
    (h : (b.answer (.fetch name)).1 = .ok (policy, token)) :
    b.faults.fetch = none ∧ b.store.get? name = some policy := by
  cases hfault : b.faults.fetch with
  | some f =>
    rw [answer, hfault] at h
    cases h
  | none =>
    rw [answer, hfault] at h
    exact ⟨rfl, (PolicyStore.fetch_eq_ok h).1⟩

theorem answer_store {b : Backend} (h : b.MayStore) (policy : Policy) :
    b.afterFetch.answer (.store policy (PolicyStore.token (b.store.issued + 1))) =
      (.ok (), b.holding (PolicyStore.putOwn (some policy) b.store.policies)
        (b.store.issued + 1)) := by
  obtain ⟨hfault, hlagging⟩ := h
  have hfault' : b.afterFetch.faults.store = none := hfault
  -- The token issued last is the one that came with the fetch, as the store does not lag.
  have hissued : b.afterFetch.store.issued = b.store.issued + 1 := by
    simp [afterFetch, holding, hlagging]
  rw [answer, hfault']
  simp only [PolicyStore.store, hissued, if_true]
  simp [PolicyStore.put, afterFetch, holding, hlagging, PolicyStore.putOwn]

/-- What has been fetched is stored only if no fault is in the way and the token is not outdated. -/
theorem mayStore_of_answer_store {b : Backend} {policy : Policy}
    (h : (b.afterFetch.answer (.store policy (PolicyStore.token (b.store.issued + 1)))).1 =
      .ok ()) : b.MayStore := by
  cases hfault : b.afterFetch.faults.store with
  | some f =>
    rw [answer, hfault] at h
    cases h
  | none =>
    rw [answer, hfault] at h
    -- The token that came with the fetch was accepted, so it is the one issued last.
    have hissued := PolicyStore.token_inj (PolicyStore.store_eq_ok.mp h)
    refine ⟨hfault, ?_⟩
    -- A lagging store has issued one more in the meantime.
    cases hlagging : b.store.lagging with
    | false => rfl
    | true => simp [afterFetch, holding, hlagging] at hissued

end Backend

/-- When a transaction succeeds against a backend, and what it leaves: the policy is there, and if
another one is to be stored that is possible. -/
theorem Transaction.run_answer_eq_ok {α : Type} {t : Transaction α} {b : Backend} {value : α}
    {after : List (String × Policy)} :
    ((t.program.run Backend.answer b).value = .ok value ∧
        (t.program.run Backend.answer b).state.store.policies = after) ↔
      b.faults.fetch = none ∧ ∃ fetched changed, b.store.get? t.name = some fetched ∧
        t.resolve fetched = .ok (value, changed) ∧ (changed ≠ none → b.MayStore) ∧
        after = PolicyStore.putOwn changed b.store.policies := by
  -- The run is followed call by call: the fetch, what is found out, and the store if there is one.
  constructor
  · rintro ⟨hvalue, rfl⟩
    rw [program, Program.run] at hvalue ⊢
    cases hanswer : (b.answer (.fetch t.name)).1 with
    | error f =>
      simp only [hanswer] at hvalue
      cases hvalue
    | ok fetched =>
      obtain ⟨policy, token⟩ := fetched
      obtain ⟨hfault, hget⟩ := Backend.answer_fetch_eq_ok hanswer
      simp only [Backend.answer_fetch hfault hget, proceed] at hvalue ⊢
      refine ⟨hfault, policy, ?_⟩
      cases hresolve : t.resolve policy with
      | error f =>
        rw [hresolve] at hvalue
        cases hvalue
      | ok resolved =>
        -- Without a changed policy the transaction ends behind the fetch.
        obtain ⟨first, _ | changed⟩ := resolved
        · rw [hresolve] at hvalue
          obtain rfl := Except.ok.inj hvalue
          exact ⟨none, hget, rfl, fun hne => absurd rfl hne, rfl⟩
        · simp only [hresolve, follow, Program.run, Run.afterExchange] at hvalue ⊢
          -- Behind a changed policy the store decides, and the transaction succeeded.
          have hok : (b.afterFetch.answer
              (.store changed (PolicyStore.token (b.store.issued + 1)))).1 = .ok () := by
            cases hstored : (b.afterFetch.answer
                (.store changed (PolicyStore.token (b.store.issued + 1)))).1 with
            | ok _ => rfl
            | error f =>
              simp only [hstored] at hvalue
              cases hvalue
          have hmay := Backend.mayStore_of_answer_store hok
          rw [Backend.answer_store hmay] at hvalue ⊢
          obtain rfl := Except.ok.inj hvalue
          exact ⟨some changed, hget, rfl, fun _ => hmay, rfl⟩
  · -- Conversely, each of the calls is answered as the conditions say.
    rintro ⟨hfault, fetched, changed, hget, hresolve, hmay, rfl⟩
    rw [program, Program.run, Backend.answer_fetch hfault hget]
    simp only [proceed, hresolve, Run.afterExchange]
    cases changed with
    | none => exact ⟨rfl, rfl⟩
    | some changed =>
      simp only [follow, Program.run, Backend.answer_store (hmay (Option.some_ne_none changed))]
      exact ⟨rfl, rfl⟩

/-! ### When a request succeeds -/

/-- A request to change members succeeds against the backend with policies, and leaves others: the
request is cleared, its changes of the policy can be made, and if they make a difference the policy
can be stored. -/
def Backend.Commits (b : Backend) (change : Change) (caller : Option Caller) (text : String)
    (texts : List String) (before after : List (String × Policy)) : Prop :=
  b.faults.fetch = none ∧ ∃ resource fetched changed differs,
    b.oracle.Clears change caller text texts resource ∧
      before.lookup resource.policyId = some fetched ∧
      b.oracle.changes change texts (fetched, false) = .ok (changed, differs) ∧
      (differs = true → b.MayStore) ∧
      after = PolicyStore.putOwn (if differs then some changed else none) before

theorem Oracle.transaction_resolve {fetched : Policy} {value : Unit} {changed : Option Policy} :
    ((o.transaction change texts resource).map id (Failure.through place)).resolve fetched =
        .ok (value, changed) ↔
      ∃ policy differs, o.changes change texts (fetched, false) = .ok (policy, differs) ∧
        changed = if differs then some policy else none := by
  -- The place is put on failures alone, so it does not matter to what is found out.
  rw [Transaction.map, mapError_eq_ok, transaction, Transaction.ofChanges]
  cases hchanges : o.changes change texts (fetched, false) with
  | error f => simp [hchanges, Except.map]
  | ok state =>
    obtain ⟨policy, differs⟩ := state
    simp only [hchanges, Except.map, Except.ok.injEq, Prod.mk.injEq]
    constructor
    · rintro ⟨-, rfl⟩
      exact ⟨policy, differs, ⟨rfl, rfl⟩, rfl⟩
    · rintro ⟨_, _, ⟨rfl, rfl⟩, rfl⟩
      exact ⟨trivial, rfl⟩

/-- When a request to change members succeeds, and what it leaves. -/
theorem Backend.commits_iff {b : Backend} {after : List (String × Policy)} :
    ((b.run (alter change place caller text texts)).value = .ok () ∧
        (b.run (alter change place caller text texts)).state.store.policies = after) ↔
      b.Commits change caller text texts b.store.policies after := by
  -- What remains of the request, once lookups are settled, is a transaction behind its clearance.
  obtain ⟨hvalue, hstate⟩ := b.run_settle (alter change place caller text texts).run
  rw [run, ← hvalue, ← hstate, alter_reduces]
  -- A request that is not cleared fails, and the right side would clear it.
  cases hclearance : b.oracle.clearance change place caller text texts with
  | error f =>
    constructor
    · rintro ⟨hfailed, -⟩
      cases hfailed
    · rintro ⟨-, resource, fetched, changed, differs, hclears, -⟩
      rw [Oracle.clearance_eq_ok.mpr hclears] at hclearance
      cases hclearance
  | ok resource =>
    rw [Transaction.run_answer_eq_ok]
    refine and_congr_right fun _ => ?_
    simp only [Oracle.transaction_resolve]
    constructor
    · rintro ⟨fetched, _, hfetched, ⟨changed, differs, hchanges, rfl⟩, hmay, rfl⟩
      refine ⟨resource, fetched, changed, differs, Oracle.clearance_eq_ok.mp hclearance, hfetched,
        hchanges, fun hdiffers => hmay (by simp [hdiffers]), rfl⟩
    · -- A request is cleared for one resource only.
      rintro ⟨other, fetched, changed, differs, hclears, hfetched, hchanges, hmay, rfl⟩
      obtain rfl : resource = other :=
        Except.ok.inj (hclearance.symm.trans (Oracle.clearance_eq_ok.mpr hclears))
      refine ⟨fetched, _, hfetched, ⟨changed, differs, hchanges, rfl⟩, fun hne => hmay ?_, rfl⟩
      simpa using hne

/-- When a request that names identities succeeds, and what it leaves. -/
theorem Backend.commits_perform {b : Backend} {m : Mutation} {entries : List (Option String)}
    (hdata : m.batch.data = some entries) {after : List (String × Policy)} :
    ((b.run (m.perform caller)).value = .ok () ∧
        (b.run (m.perform caller)).state.store.policies = after) ↔
      b.Commits m.change caller m.space (entries.filterMap id) b.store.policies after := by
  rw [m.perform_eq, alterAll, hdata]
  exact commits_iff

end Roster
