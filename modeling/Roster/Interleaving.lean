import Roster.Program

/-!
# Programs beside each other

Several programs that work on one state make their calls in turns. A turn belongs to one of the
programs, which makes its next call, or to the surroundings, which change the state in their own
way. Any order of the calls of the programs is the order of some turns.
-/

namespace Roster

variable {I : Interface} {σ α : Type}

namespace Program

/-- A program after its next call, and the state then. Events on the way to the call are passed
over; a program that is done stays as it is. -/
def advance (handler : Handler I σ) : Program I α → σ → Program I α × σ
  | done value, state => (done value, state)
  | note _ rest, state => rest.advance handler state
  | ask call rest, state =>
    let (answer, state) := handler call state
    (rest answer, state)

/-- The value of a program that has no more calls to make. -/
def value? : Program I α → Option α
  | done value => some value
  | note _ rest => rest.value?
  | ask _ _ => none

end Program

/-- Programs and the state that they work on. -/
structure Pool (I : Interface) (σ α : Type) where
  /-- The state. -/
  state : σ
  /-- The programs, as far as they have come. -/
  programs : List (Program I α)

/-- A turn. -/
inductive Turn (σ : Type) where
  /-- A program makes its next call. -/
  | program (index : Nat)
  /-- The surroundings change the state. -/
  | surroundings (change : σ → σ)

namespace Pool

/-- Programs and their state after a turn. -/
def take (handler : Handler I σ) (p : Pool I σ α) : Turn σ → Pool I σ α
  | .program index =>
    match p.programs[index]? with
    | some program =>
      let (program, state) := program.advance handler p.state
      ⟨state, p.programs.set index program⟩
    | none => p
  | .surroundings change => { p with state := change p.state }

/-- Programs and their state after turns. -/
def run (handler : Handler I σ) (turns : List (Turn σ)) (p : Pool I σ α) : Pool I σ α :=
  turns.foldl (take handler) p

/-- The values of the programs that have no more calls to make. -/
def values (p : Pool I σ α) : List (Option α) :=
  p.programs.map Program.value?

@[simp] theorem run_nil (handler : Handler I σ) (p : Pool I σ α) : p.run handler [] = p := rfl

@[simp] theorem run_cons (handler : Handler I σ) (turn : Turn σ) (turns : List (Turn σ))
    (p : Pool I σ α) : p.run handler (turn :: turns) = (p.take handler turn).run handler turns :=
  rfl

end Pool

end Roster
