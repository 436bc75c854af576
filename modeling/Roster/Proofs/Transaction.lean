import Roster.Proofs.Oracle

/-!
# Requests as transactions

When lookups have fixed answers, what remains of a request is nothing but a result, or a
transaction: it fetches one policy, makes up its mind, and stores at most one policy with the token
it was given (`Request.remainder`). What it makes of a policy does not depend on the token
(`Transaction.follow`).

A transaction that runs alone finds its token to be the newest one, so it stores what it wants to
store (`Transaction.alone_stored`).
-/

namespace Roster

open Service Attempt

/-- A program that fetches a policy and stores at most one. -/
structure Transaction (α : Type) where
  /-- The name of the policy that is fetched. -/
  name : String
  /-- The value that comes of a policy, and the policy to store if it is another one. -/
  resolve : Policy → Result (α × Option Policy)
  /-- How the failure to fetch or to store is seen. -/
  failed : Failure → Failure

namespace Transaction

variable {α β : Type}

/-- What a transaction does with the token once it has made up its mind. -/
def follow (t : Transaction α) (token : ProtectionToken) :
    Result (α × Option Policy) → Program interface (Result α)
  | .error f => .done (.error f)
  | .ok (value, none) => .done (.ok value)
  | .ok (value, some policy) =>
    .ask (I := interface) (.store policy token) fun answer =>
      .done ((answer.mapError t.failed).map fun _ => value)

/-- What a transaction does with the answer to its fetch. -/
def proceed (t : Transaction α) :
    Result (Policy × ProtectionToken) → Program interface (Result α)
  | .error f => .done (.error (t.failed f))
  | .ok (policy, token) => t.follow token (t.resolve policy)

/-- The program that a transaction is. -/
def program (t : Transaction α) : Program interface (Result α) :=
  .ask (I := interface) (.fetch t.name) t.proceed

/-- The transaction never stores anything. -/
def Reads (t : Transaction α) : Prop :=
  ∀ policy value changed, t.resolve policy = .ok (value, changed) → changed = none

/-- A transaction with its value and its failures changed. -/
def map (f : α → β) (g : Failure → Failure) (t : Transaction α) : Transaction β where
  name := t.name
  resolve policy := ((t.resolve policy).map fun (value, changed) => (f value, changed)).mapError g
  failed failure := g (t.failed failure)

theorem program_map (f : α → β) (g : Failure → Failure) (t : Transaction α) :
    (t.map f g).program = (fun r : Result α => (r.map f).mapError g) <$> t.program := by
  refine congrArg (Program.ask (I := interface) (.fetch t.name)) (funext fun answer => ?_)
  cases answer with
  | error failure => rfl
  | ok fetched =>
    obtain ⟨policy, token⟩ := fetched
    show follow _ token (((t.resolve policy).map _).mapError g) =
      _ <$> t.follow token (t.resolve policy)
    -- Resolving fails, comes to a value with nothing to store, or to one with a policy to store.
    rcases t.resolve policy with failure | ⟨value, _ | changed⟩
    · rfl
    · rfl
    · refine congrArg (Program.ask (I := interface) (.store changed token))
        (funext fun answer => ?_)
      cases answer <;> rfl

theorem Reads.map {t : Transaction α} (h : t.Reads) (f : α → β) (g : Failure → Failure) :
    (t.map f g).Reads := by
  intro policy value changed hresolve
  change ((t.resolve policy).map _).mapError g = _ at hresolve
  -- Mapping keeps what is to be stored, so it is nothing on both sides or on neither.
  cases ht : t.resolve policy with
  | error failure =>
    rw [ht] at hresolve
    cases hresolve
  | ok resolved =>
    obtain ⟨first, other⟩ := resolved
    rw [ht] at hresolve
    cases hresolve
    exact h policy first _ ht

/-- The transaction that changes a policy and stores it if that makes a difference. -/
def ofChanges (name : String) (changed : Policy → Result (Policy × Bool)) : Transaction Unit where
  name := name
  resolve policy := (changed policy).map fun (after, differs) =>
    ((), if differs then some after else none)
  failed := Failure.as .serverError

/-- The transaction that finds out something about a policy. -/
def ofReading (name : String) (read : Policy → Result α) (failed : Failure → Failure) :
    Transaction α where
  name := name
  resolve policy := (read policy).map fun value => (value, none)
  failed := failed

theorem reads_ofReading (name : String) (read : Policy → Result α) (failed : Failure → Failure) :
    (ofReading name read failed).Reads := by
  intro policy value changed hresolve
  change (read policy).map _ = _ at hresolve
  -- Whatever is found out is paired with nothing.
  cases hread : read policy <;> rw [hread] at hresolve <;> cases hresolve
  rfl

end Transaction

/-! ### What remains of requests -/

/-- What may remain of a request: a result, or a transaction that stores something only if the
request may. -/
inductive Remainder {α : Type} (mayStore : Bool) (q : Program interface (Result α)) : Prop where
  /-- A result. -/
  | settled (r : Result α) (h : q = .done r)
  /-- A transaction. -/
  | transaction (t : Transaction α) (h : q = t.program) (hreads : mayStore = false → t.Reads)

namespace Remainder

variable {α β : Type} {mayStore : Bool} {q : Program interface (Result α)}

theorem map (h : Remainder mayStore q) (f : α → β) (g : Failure → Failure) :
    Remainder mayStore ((fun r : Result α => (r.map f).mapError g) <$> q) := by
  cases h with
  | settled r h => exact .settled _ (by rw [h]; rfl)
  | transaction t h hreads =>
    exact .transaction (t.map f g) (by rw [h, t.program_map]) fun hstore => (hreads hstore).map f g

end Remainder

section Requests

variable {α β : Type} {o : Oracle}

theorem settle_map (f : α → β) (p : Program interface α) :
    Program.settle o (f <$> p) = f <$> Program.settle o p := by
  rw [← bind_pure_comp, Program.settle_bind, ← bind_pure_comp]
  rfl

theorem Remainder.through {mayStore : Bool} {x : Action α}
    (h : Remainder mayStore (Program.settle o x.run)) (place : String) :
    Remainder mayStore (Program.settle o (x.through place).run) := by
  have hmap : Program.settle o (x.through place).run =
      (fun r : Result α => (r.map id).mapError (Failure.through place)) <$>
        Program.settle o x.run := by
    -- Passing failures on is a change of the result, which a settled program undergoes at its end.
    rw [← settle_map]
    refine congrArg (Program.settle o) (congrArg (· <$> x.run) (funext fun r => ?_))
    cases r <;> rfl
  rw [hmap]
  exact h.map id (Failure.through place)

theorem Remainder.mapValue {mayStore : Bool} {x : Action α}
    (h : Remainder mayStore (Program.settle o x.run)) (f : α → β) :
    Remainder mayStore (Program.settle o (f <$> x).run) := by
  have hmap : Program.settle o (f <$> x).run =
      (fun r : Result α => (r.map f).mapError id) <$> Program.settle o x.run := by
    rw [← settle_map, ExceptT.run_map]
    refine congrArg (Program.settle o) (congrArg (· <$> x.run) (funext fun r => ?_))
    cases r <;> rfl
  rw [hmap]
  exact h.map f id

theorem settles_find (lookup : Lookup) (read : Result (Option lookup.Entry) → Result α) :
    Settles o (consult (I := interface) (.find lookup) read) (read (o.find lookup)) := rfl

theorem settles_ofResult (r : Result α) : Settles o (ofResult r : Action α) r := rfl

theorem settles_authorize (caller : Option Caller) (space : Uuid) (read : Result Bool → Result α) :
    Settles o (consult (I := interface) (.authorize caller space) read)
      (read (o.authorize caller space)) := rfl

/-- What remains of fetching a policy and going on: a transaction, if so much remains of what comes
after the fetch. -/
theorem settle_fetch_bind (t : Transaction α) {read : Result (Policy × ProtectionToken) → Result _}
    (hread : ∀ r, read r = r.mapError t.failed) {next : Policy × ProtectionToken → Action α}
    (hnext : ∀ policy token,
      Program.settle o (next (policy, token)).run = t.follow token (t.resolve policy)) :
    Program.settle o (consult (I := interface) (.fetch t.name) read >>= next).run = t.program := by
  -- Both sides fetch the same policy, so what is left to compare is what follows each answer.
  refine congrArg (Program.ask (I := interface) (.fetch t.name)) (funext fun answer => ?_)
  show Program.settle o (ofResult (read answer) >>= next).run = _
  rw [hread]
  cases answer with
  | error f => rfl
  | ok fetched => exact hnext fetched.1 fetched.2

/-- An attempt after another one of which a result remains: a failure is all that remains of both.
-/
theorem Remainder.bind {mayStore : Bool} {x : Action α} {r : Result α} {next : α → Action β}
    (hx : Settles o x r)
    (hnext : ∀ value, Remainder mayStore (Program.settle o (next value).run)) :
    Remainder mayStore (Program.settle o (x >>= next).run) := by
  cases r with
  -- A failure settles the whole, since nothing of the second attempt takes place.
  | error f => exact .settled _ (settle_bind_of_error hx next)
  | ok value =>
    rw [settle_bind_of_ok hx]
    exact hnext value

/-- What remains of the changes of a policy and of storing it, if it is clear what comes of the
changes. -/
theorem settle_changes {name : String} {changed : Policy → Result (Policy × Bool)} {policy : Policy}
    {change : Change} {texts : List String}
    (h : Settles o (changeEach change texts (policy, false)) (changed policy)) (space : Uuid)
    (caller : Option Caller) (token : ProtectionToken) :
    Program.settle o
        (changeEach change texts (policy, false) >>= finish space caller change token).run =
      (Transaction.ofChanges name changed).follow token
        ((Transaction.ofChanges name changed).resolve policy) := by
  show _ = Transaction.follow _ token ((changed policy).map _)
  -- The lookups are settled, and what they come to decides whether there is anything left to store.
  cases hresult : changed policy with
  | error f =>
    rw [hresult] at h
    exact settle_bind_of_error h _
  | ok state =>
    obtain ⟨after, differs⟩ := state
    rw [hresult] at h
    rw [settle_bind_of_ok h]
    -- A policy that is not another one is not stored, and otherwise the answer to the store
    -- decides.
    cases differs with
    | false => rfl
    | true =>
      refine congrArg (Program.ask (I := interface) (.store after token)) (funext fun answer => ?_)
      cases answer <;> rfl

/-- What remains of an update: it may be settled before the policy is fetched, else the policy is
fetched, changed, and stored if it is another one. -/
theorem update_remainder (change : Change) (caller : Option Caller) (space : Uuid)
    (texts : List String) :
    Remainder true (Program.settle o (update change caller space texts).run) := by
  rw [update_eq]
  -- Leave and resource are settled by the oracle, and a failure of either ends the update.
  refine .bind (settles_authorize caller space leaveOf) fun _ => ?_
  refine .bind (settles_find (.resource space) _) fun resource : SpaceResource => ?_
  -- What comes of the lookups of identities is a function of the policy.
  have hlookups (policy : Policy) : Only Call.IsLookup (changeEach change texts (policy, false)) :=
    (changeEach_only (policy, false)).mono fun call ⟨x, hx⟩ => ⟨.identity x, hx⟩
  choose changed hchanged _ using fun policy => exists_settles (o := o) (hlookups policy)
  refine .transaction (.ofChanges resource.policyId changed) ?_ nofun
  refine settle_fetch_bind (.ofChanges resource.policyId changed) (fun _ => rfl) ?_
  intro policy token
  exact settle_changes (hchanged policy) space caller token

/-- What remains of a request to change members. -/
theorem alter_remainder (change : Change) (place : String) (caller : Option Caller) (text : String)
    (texts : List String) :
    Remainder true (Program.settle o (alter change place caller text texts).run) := by
  -- A removal looks the owner up before all else, which is settled as well.
  cases change with
  | add =>
    rw [alter, readId_eq]
    refine Remainder.through ?_ place
    exact .bind (settles_ofResult _) fun space => update_remainder .add caller space texts
  | remove =>
    rw [alter, readId_eq]
    refine .bind (settles_ofResult _) fun space => Remainder.through ?_ place
    rw [keepOwner_eq]
    exact .bind (settles_find _ _) fun _ => update_remainder .remove caller space texts

/-- What remains of a listing: it may be settled before the policy is fetched, else the policy is
fetched and nothing is stored. -/
theorem list_remainder (space : String) (page : PageRequest) (path : String) :
    Remainder false (Program.settle o (list space page path).run) := by
  rw [list_eq]
  -- The text and the resource are settled, and nothing but the fetch depends on the store.
  refine .bind (settles_ofResult _) fun id => ?_
  rw [fetchOf_eq, through_bind, bind_assoc]
  refine .bind (settles_find (.resource id) _) fun resource : SpaceResource => ?_
  -- A listing makes lookups only, so what comes of it is a function of the policy.
  choose listing hlisting _ using fun policy =>
    exists_settles (o := o) (listed_only id page path policy)
  let t : Transaction Listing := .ofReading resource.policyId listing fun f =>
    (f.as .serverError).through "s:list_collaborators"
  refine .transaction t ?_ fun _ => Transaction.reads_ofReading _ _ _
  rw [consult_through]
  refine settle_fetch_bind t (fun r => by cases r <;> rfl) ?_
  intro policy token
  -- Nothing is stored, so what follows the fetch is the listing itself.
  show _ = t.follow token ((listing policy).map _)
  have hpolicy := hlisting policy
  cases hresult : listing policy <;> rw [hresult] at hpolicy <;> exact hpolicy

/-- What remains of a request is a result or a transaction, and one that stores nothing if the
request is not to change anything. -/
theorem Service.Request.remainder (r : Request) :
    Remainder r.isChange (Program.settle o r.perform.run) := by
  cases r with
  | list space page path => exact (list_remainder space page path).mapValue some
  | change caller m =>
    refine Remainder.mapValue (x := m.perform caller) ?_ fun _ => none
    -- A change without identities is settled without a call.
    rw [m.perform_eq, alterAll]
    cases m.batch.data with
    | none => exact .settled _ rfl
    | some entries => exact alter_remainder _ _ _ _ _

end Requests

/-! ### On their own -/

/-- On its own a program gives the value and changes the policies as told, whatever the number of
tokens that have been issued. -/
def Alone {α : Type} (o : Oracle) (lagging : Bool) (p : Program interface α)
    (before after : List (String × Policy)) (value : α) : Prop :=
  ∀ issued, ∃ issued', (p.run o.answer ⟨before, issued, lagging⟩).value = value ∧
    (p.run o.answer ⟨before, issued, lagging⟩).state = ⟨after, issued', lagging⟩

section Alone

variable {α : Type} {o : Oracle} {lagging : Bool} {before after : List (String × Policy)}

theorem alone_settle {p : Program interface α} {value : α} :
    Alone o lagging (p.settle o) before after value ↔ Alone o lagging p before after value := by
  simp only [Alone, Program.run_settle]

theorem alone_done (value : α) : Alone o lagging (.done value) before before value :=
  fun issued => ⟨issued, rfl, rfl⟩

namespace Transaction

variable {t : Transaction α} {fetched : Policy} {value : α}

theorem run_program (o : Oracle) (lagging : Bool) (h : before.lookup t.name = some fetched)
    (issued : Nat) :
    let follow := (t.follow (PolicyStore.token (issued + 1)) (t.resolve fetched)).run o.answer
      ⟨before, issued + (if lagging then 2 else 1), lagging⟩
    (t.program.run o.answer ⟨before, issued, lagging⟩).value = follow.value ∧
      (t.program.run o.answer ⟨before, issued, lagging⟩).state = follow.state := by
  -- With the policy in the store, a fetch finds it and issues the next token.
  have hfetch : (⟨before, issued, lagging⟩ : PolicyStore).fetch t.name =
      (.ok (fetched, PolicyStore.token (issued + 1)),
        ⟨before, issued + (if lagging then 2 else 1), lagging⟩) := by
    rw [PolicyStore.fetch, PolicyStore.get?, h]
  simp only [program, Program.run, Oracle.answer, hfetch, proceed]
  exact ⟨rfl, rfl⟩

/-- A transaction that stores nothing changes nothing. -/
theorem alone_unchanged (h : before.lookup t.name = some fetched)
    (hresolve : t.resolve fetched = .ok (value, none)) :
    Alone o lagging t.program before before (.ok value) := by
  intro issued
  obtain ⟨hvalue, hstate⟩ := run_program o lagging h issued
  rw [hresolve] at hvalue hstate
  exact ⟨_, hvalue, hstate⟩

/-- A transaction stores what it wants to store, as its token is the newest one. -/
theorem alone_stored {changed : Policy} (h : before.lookup t.name = some fetched)
    (hresolve : t.resolve fetched = .ok (value, some changed)) :
    Alone o false t.program before
      (PolicyStore.putIn (PolicyStore.nameOf changed) changed before) (.ok value) := by
  intro issued
  obtain ⟨hvalue, hstate⟩ := run_program o false h issued
  -- The token that the fetch has issued is the newest one, also when the policy is stored.
  have hstore : (⟨before, issued + 1, false⟩ : PolicyStore).store changed
      (PolicyStore.token (issued + 1)) =
      (.ok (),
        ⟨PolicyStore.putIn (PolicyStore.nameOf changed) changed before, issued + 1, false⟩) :=
    if_pos rfl
  rw [hresolve] at hvalue hstate
  simp only [follow, Program.run, Oracle.answer, Bool.false_eq_true, if_false, hstore]
    at hvalue hstate
  exact ⟨issued + 1, hvalue, hstate⟩

/-- A transaction that never stores anything leaves the policies as they are. -/
theorem Reads.eq_of_alone (hreads : t.Reads)
    (h : Alone o lagging t.program before after (.ok value)) : after = before := by
  obtain ⟨issued, hvalue, hstate⟩ := h 0
  -- Without the policy there would be a failure, and with it the transaction stores nothing.
  cases hlookup : before.lookup t.name with
  | none =>
    have hfetch : (⟨before, 0, lagging⟩ : PolicyStore).fetch t.name =
        (.error PolicyStore.unknownPolicy, ⟨before, 0, lagging⟩) := by
      rw [PolicyStore.fetch, PolicyStore.get?, hlookup]
    simp only [program, Program.run, Oracle.answer, hfetch, proceed] at hvalue
    cases hvalue
  | some fetched =>
    obtain ⟨hvalue', hstate'⟩ := run_program o lagging hlookup 0
    rw [hstate] at hstate'
    rw [hvalue] at hvalue'
    cases hresolve : t.resolve fetched with
    | error f =>
      rw [hresolve] at hvalue'
      cases hvalue'
    | ok resolved =>
      obtain ⟨first, changed⟩ := resolved
      obtain rfl := hreads fetched first changed hresolve
      rw [hresolve] at hstate'
      exact congrArg PolicyStore.policies hstate'

end Transaction

end Alone

end Roster
