import Roster.Memory.Backend
import Roster.Proofs.Pool
import Roster.Proofs.Transcript

/-!
# What remains when lookups have fixed answers

Where directory and authorizer give fixed answers (`Oracle`), only fetching and storing policies
depends on what other requests do. What a program does beside that is settled by the answers, and
what remains of it (`Program.settle`) only fetches and stores. A turn of a program either leaves
what remains as it is or is a turn of what remains (`Program.moves`), and on its own it gives the
same value and leaves the same policies (`Program.run_settle`). So what is to be said about requests
beside each other can be said about what remains of them.
-/

namespace Roster

open Service

/-- Fixed answers to all calls of the service but those to fetch and to store policies. -/
structure Oracle where
  /-- What is found by looking something up. -/
  find : (lookup : Lookup) → Result (Option lookup.Entry)
  /-- Whether a caller may act on a space. -/
  authorize : Option Caller → Uuid → Result Bool

/-- Answers a call by the oracle, or from a store. -/
def Oracle.answer (o : Oracle) : Handler interface PolicyStore
  | .find lookup, s => (o.find lookup, s)
  | .authorize caller space, s => (o.authorize caller space, s)
  | .fetch name, s => s.fetch name
  | .store policy token, s => s.store policy token

/-- What a backend answers as long as its directory, verdict and faults stay. -/
def Backend.oracle (b : Backend) : Oracle where
  find := b.find
  authorize _ _ := failingWith b.faults.authorize b.verdict

namespace Program

variable {α β : Type} {o : Oracle}

/-- What remains of a program when lookups and questions for leave have fixed answers. -/
def settle (o : Oracle) : Program interface α → Program interface α
  | done value => done value
  | note _ rest => rest.settle o
  | ask (.find lookup) rest => (rest (o.find lookup)).settle o
  | ask (.authorize caller space) rest => (rest (o.authorize caller space)).settle o
  | ask (.fetch name) rest =>
    ask (I := interface) (.fetch name) fun answer => (rest answer).settle o
  | ask (.store policy token) rest =>
    ask (I := interface) (.store policy token) fun answer => (rest answer).settle o

theorem settle_bind (p : Program interface α) (next : α → Program interface β) :
    (p >>= next).settle o = p.settle o >>= fun value => (next value).settle o := by
  induction p with
  | done value => rfl
  | note event rest ih => exact ih
  | ask call rest ih =>
    -- Settled calls go on with their answers; the other two stay in front of what remains.
    cases call with
    | find lookup => exact ih (o.find lookup)
    | authorize caller space => exact ih (o.authorize caller space)
    | fetch name => exact congrArg (ask (I := interface) (.fetch name)) (funext ih)
    | store policy token => exact congrArg (ask (I := interface) (.store policy token)) (funext ih)

/-- What remains of a program gives the value of the program, and leaves the store that the program
leaves. -/
theorem run_settle (p : Program interface α) (s : PolicyStore) :
    ((p.settle o).run o.answer s).value = (p.run o.answer s).value ∧
      ((p.settle o).run o.answer s).state = (p.run o.answer s).state := by
  induction p generalizing s with
  | done value => exact ⟨rfl, rfl⟩
  | note event rest ih => exact ih s
  | ask call rest ih =>
    -- Settled or not, the call leaves the store in the same state.
    cases call with
    | find lookup => exact ih (o.find lookup) s
    | authorize caller space => exact ih (o.authorize caller space) s
    | fetch name => exact ih (s.fetch name).1 (s.fetch name).2
    | store policy token => exact ih (s.store policy token).1 (s.store policy token).2

/-- What a turn of a program does to what remains of it, and to the store. -/
inductive Moves (o : Oracle) (p q : Program interface α) (s t : PolicyStore) : Prop where
  /-- Nothing. -/
  | silent (hnext : p.next?.any Call.isFetch = false) (hsettle : q.settle o = p.settle o)
      (hstore : t = s)
  /-- A policy is fetched. -/
  | fetches (name : String) (rest : Result (Policy × ProtectionToken) → Program interface α)
      (hnext : p.next?.any Call.isFetch = true)
      (hbefore : p.settle o = ask (I := interface) (.fetch name) rest)
      (hafter : q.settle o = rest (s.fetch name).1) (hstore : t = (s.fetch name).2)
  /-- A policy is stored. -/
  | stores (policy : Policy) (token : ProtectionToken) (rest : Result Unit → Program interface α)
      (hnext : p.next?.any Call.isFetch = false)
      (hbefore : p.settle o = ask (I := interface) (.store policy token) rest)
      (hafter : q.settle o = rest (s.store policy token).1)
      (hstore : t = (s.store policy token).2)

/-- A turn of a program is a turn of what remains of it, or nothing. -/
theorem moves (o : Oracle) (p : Program interface α) (s : PolicyStore) :
    Moves o p (p.advance o.answer s).1 s (p.advance o.answer s).2 := by
  induction p with
  | done value => exact .silent rfl rfl rfl
  | note event rest ih =>
    -- Neither the next call nor what remains knows about the event.
    cases ih with
    | silent hnext hsettle hstore => exact .silent hnext hsettle hstore
    | fetches name next hnext hbefore hafter hstore =>
      exact .fetches name next hnext hbefore hafter hstore
    | stores policy token next hnext hbefore hafter hstore =>
      exact .stores policy token next hnext hbefore hafter hstore
  | ask call rest =>
    cases call with
    -- A settled call is answered by the oracle, and what remains is what was left of the program.
    | find lookup => exact .silent rfl rfl rfl
    | authorize caller space => exact .silent rfl rfl rfl
    | fetch name => exact .fetches name _ rfl rfl rfl rfl
    | store policy token => exact .stores policy token _ rfl rfl rfl rfl

end Program

/-! ### What remains of attempts -/

namespace Attempt

variable {α β : Type} {o : Oracle} {x : Action α}

/-- What remains of an attempt is known to be a result. -/
def Settles (o : Oracle) (x : Action α) (r : Result α) : Prop :=
  Program.settle o x.run = .done r

theorem settle_bind_of_error {f : Failure} (hx : Settles o x (.error f)) (next : α → Action β) :
    Settles o (x >>= next) (.error f) := by
  show Program.settle o (x.run >>= _) = _
  -- What remains of the first part is its failure, and behind a failure nothing remains.
  rw [Program.settle_bind, hx]
  rfl

theorem settle_bind_of_ok {value : α} (hx : Settles o x (.ok value)) (next : α → Action β) :
    Program.settle o (x >>= next).run = Program.settle o (next value).run := by
  show Program.settle o (x.run >>= _) = _
  rw [Program.settle_bind, hx]
  rfl

/-- Of an attempt that looks something up and nothing else, a result remains, one that the attempt
may show. -/
theorem exists_settles (h : Only Call.IsLookup x) :
    ∃ r, Settles o x r ∧ ∃ exchanges, x.Shows exchanges r := by
  have hprogram (p : Program interface (Result α))
      (h : ∀ exchanges r, p.Shows exchanges r → ∀ e ∈ exchanges, Call.IsLookup e.call) :
      ∃ r, p.settle o = .done r ∧ ∃ exchanges, p.Shows exchanges r := by
    induction p with
    | done r => exact ⟨r, rfl, [], rfl, rfl⟩
    | note event rest ih => exact ih h
    | ask call rest ih =>
      -- Whatever the call is answered with, the program may show it.
      have hlookup : Call.IsLookup call := by
        obtain ⟨answer⟩ := Call.nonempty_answer call
        obtain ⟨behind, r, hbehind⟩ := (rest answer).exists_shows Call.nonempty_answer
        exact h _ r ⟨answer, behind, rfl, hbehind⟩ ⟨call, answer⟩ List.mem_cons_self
      obtain ⟨lookup, rfl⟩ := hlookup
      -- The lookup is settled, so the result is that of the rest behind its answer.
      obtain ⟨r, hr, behind, hbehind⟩ := ih (o.find lookup) fun behind r hbehind e he =>
        h _ r ⟨o.find lookup, behind, rfl, hbehind⟩ e (List.mem_cons_of_mem _ he)
      exact ⟨r, hr, _, o.find lookup, behind, rfl, hbehind⟩
  exact hprogram x.run h

end Attempt

end Roster
