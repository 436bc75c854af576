import Roster.Event
import Roster.Failure

/-!
# Programs

A program is a value: it is done, or it writes a log event and goes on, or it makes a call to its
surroundings and goes on with the answer. What answers the calls is not part of it, so one program
can be run against a store in memory, against a server, or one call at a time between the calls of
other programs.

A run hands every call to a handler that keeps a state. It shows the value of the program, the last
state, all exchanges in order and all events in order.
-/

namespace Roster

/-- The calls that a program may make, and what each of them is answered with. -/
structure Interface where
  /-- The calls. -/
  Call : Type
  /-- The answers to a call. -/
  Answer : Call → Type

/-- A program that makes calls and gives back a value. -/
inductive Program (I : Interface) (α : Type) where
  /-- There is nothing left to do. -/
  | done (value : α)
  /-- Writes an event to the log. -/
  | note (event : Event) (rest : Program I α)
  /-- Makes a call. -/
  | ask (call : I.Call) (rest : I.Answer call → Program I α)

namespace Program

variable {I J : Interface} {α β γ σ : Type}

/-- A program followed by another one that depends on its value. -/
def bind : Program I α → (α → Program I β) → Program I β
  | done value, next => next value
  | note event rest, next => note event (rest.bind next)
  | ask call rest, next => ask call fun answer => (rest answer).bind next

instance : Monad (Program I) where
  pure := done
  bind := bind

@[simp] theorem pure_eq_done (value : α) : (pure value : Program I α) = done value := rfl

@[simp] theorem done_bind (value : α) (next : α → Program I β) :
    (done value >>= next) = next value := rfl

@[simp] theorem note_bind (event : Event) (rest : Program I α) (next : α → Program I β) :
    (note event rest >>= next) = note event (rest >>= next) := rfl

@[simp] theorem ask_bind (call : I.Call) (rest : I.Answer call → Program I α)
    (next : α → Program I β) :
    (ask call rest >>= next) = ask call fun answer => rest answer >>= next := rfl

theorem bind_done (p : Program I α) : (p >>= done) = p := by
  induction p with
  | done value => rfl
  | note event rest ih => simp [ih]
  | ask call rest ih => simp [ih]

theorem bind_bind (p : Program I α) (f : α → Program I β) (g : β → Program I γ) :
    ((p >>= f) >>= g) = p >>= fun a => f a >>= g := by
  induction p with
  | done value => rfl
  | note event rest ih => simp [ih]
  | ask call rest ih => simp [ih]

instance : LawfulMonad (Program I) :=
  LawfulMonad.mk' (Program I) bind_done (fun _ _ => rfl) bind_bind

/-- Makes a call and gives back the answer. -/
def call (c : I.Call) : Program I (I.Answer c) :=
  ask c done

/-- Writes an event to the log. -/
def log (event : Event) : Program I Unit :=
  note event (done ())

/-- A program in which every call is replaced by a program that finds the answer with other calls.
-/
def interpret (answer : (call : I.Call) → Program J (I.Answer call)) : Program I α → Program J α
  | done value => done value
  | note event rest => note event (rest.interpret answer)
  | ask call rest => answer call >>= fun a => (rest a).interpret answer

end Program

/-! ### Runs -/

/-- A call and its answer. -/
structure Exchange (I : Interface) where
  /-- The call. -/
  call : I.Call
  /-- The answer. -/
  answer : I.Answer call

/-- What answers calls, depending on a state that an answer may change. -/
abbrev Handler (I : Interface) (σ : Type) :=
  (call : I.Call) → σ → I.Answer call × σ

/-- What a run of a program shows. -/
structure Run (I : Interface) (σ α : Type) where
  /-- The value that the program gave back. -/
  value : α
  /-- The state in the end. -/
  state : σ
  /-- The calls with their answers, in order. -/
  exchanges : List (Exchange I)
  /-- The events, in order. -/
  events : List Event

namespace Run

variable {I : Interface} {σ α : Type}

/-- A run with one more event in front. -/
def afterEvent (event : Event) (r : Run I σ α) : Run I σ α :=
  { r with events := event :: r.events }

/-- A run with one more exchange in front. -/
def afterExchange (exchange : Exchange I) (r : Run I σ α) : Run I σ α :=
  { r with exchanges := exchange :: r.exchanges }

/-- The calls of a run, in order. -/
def calls (r : Run I σ α) : List I.Call :=
  r.exchanges.map (·.call)

end Run

namespace Program

variable {I : Interface} {α β σ : Type}

/-- Runs a program: every call goes to the handler. -/
def run (handler : Handler I σ) : Program I α → σ → Run I σ α
  | done value, state => ⟨value, state, [], []⟩
  | note event rest, state => (rest.run handler state).afterEvent event
  | ask call rest, state =>
    let (answer, state) := handler call state
    ((rest answer).run handler state).afterExchange ⟨call, answer⟩

@[simp] theorem run_done (handler : Handler I σ) (value : α) (state : σ) :
    (done value : Program I α).run handler state = ⟨value, state, [], []⟩ := rfl

/-- A run of two programs in a row is a run of the first and then, from the state where it ended, a
run of the second. -/
theorem run_bind (handler : Handler I σ) (p : Program I α) (next : α → Program I β) (state : σ) :
    (p >>= next).run handler state =
      let first := p.run handler state
      let second := (next first.value).run handler first.state
      { second with
        exchanges := first.exchanges ++ second.exchanges
        events := first.events ++ second.events } := by
  induction p generalizing state with
  | done value => rfl
  | note event rest ih => simp [run, ih, Run.afterEvent]
  | ask call rest ih => simp [run, ih, Run.afterExchange]

end Program

/-! ### Programs that may fail -/

/-- A program that gives back a value or a failure. -/
abbrev Attempt (I : Interface) (α : Type) := ExceptT Failure (Program I) α

namespace Attempt

variable {I : Interface} {α : Type}

/-- Gives back a result that is known already. -/
def ofResult (r : Result α) : Attempt I α :=
  ExceptT.mk (pure r)

/-- Makes a call and gives back the answer, whatever it is. -/
def call (c : I.Call) : Attempt I (I.Answer c) :=
  ExceptT.lift (Program.call c)

/-- Writes an event to the log. -/
def log (event : Event) : Attempt I Unit :=
  ExceptT.lift (Program.log event)

/-- An attempt whose failures passed through a place. -/
def through (place : String) (attempt : Attempt I α) : Attempt I α :=
  ExceptT.mk (Result.through place <$> attempt.run)

end Attempt

end Roster
