import Roster.Interleaving
import Roster.Proofs.Exchanges

/-!
# Programs beside each other keep an invariant

Of programs that take turns nobody knows how far the others have come, so what a call may rely on is
only what holds of every state in between. Here an invariant of the state vouches for the answers
(an answer is *credible*), and a program is *careful* if, as long as its answers are credible, its
calls are *allowed* ones, which keep the invariant. Then the invariant holds after any turns
(`Pool.run_invariant`).

Whether a program is careful can be read off what it may show (`Program.careful_of_shows`): for this
every row of exchanges has to be the beginning of one that leads to the end of the program, so every
call needs some answer.
-/

namespace Roster

variable {I : Interface} {α σ : Type}

namespace Program

/-- As long as the answers are credible, the program makes only calls that are allowed. -/
def Careful (credible : Exchange I → Prop) (allowed : I.Call → Prop) : Program I α → Prop
  | done _ => True
  | note _ rest => rest.Careful credible allowed
  | ask call rest =>
    allowed call ∧ ∀ answer, credible ⟨call, answer⟩ → (rest answer).Careful credible allowed

variable {credible : Exchange I → Prop} {allowed : I.Call → Prop} {p : Program I α}

/-- Where every call has some answer, a program may show something. -/
theorem exists_shows (hanswer : ∀ call : I.Call, Nonempty (I.Answer call)) (p : Program I α) :
    ∃ exchanges value, p.Shows exchanges value := by
  induction p with
  | done value => exact ⟨[], value, rfl, rfl⟩
  | note event rest ih => exact ih
  | ask call rest ih =>
    -- Any answer will do to go on.
    obtain ⟨answer⟩ := hanswer call
    obtain ⟨exchanges, value, h⟩ := ih answer
    exact ⟨_, value, answer, exchanges, rfl, h⟩

/-- A program is careful if every call in what it may show is allowed where the answers before it
are credible. -/
theorem careful_of_shows (hanswer : ∀ call : I.Call, Nonempty (I.Answer call))
    (h : ∀ exchanges value, p.Shows exchanges value →
      ∀ before e after, exchanges = before ++ e :: after → (∀ d ∈ before, credible d) →
        allowed e.call) :
    p.Careful credible allowed := by
  induction p with
  | done value => trivial
  | note event rest ih => exact ih h
  | ask call rest ih =>
    constructor
    -- Nothing comes before the call, so it is allowed without any answer.
    · obtain ⟨answer⟩ := hanswer call
      obtain ⟨behind, value, hbehind⟩ := exists_shows hanswer (rest answer)
      exact h _ value ⟨answer, behind, rfl, hbehind⟩ [] ⟨call, answer⟩ behind rfl (by simp)
    · -- An exchange of the rest is one of the whole program, behind the answer to the first call.
      intro answer hcredible
      refine ih answer fun exchanges value hshows before e after heq hbefore => ?_
      refine h _ value ⟨answer, exchanges, rfl, hshows⟩ (⟨call, answer⟩ :: before) e after
        (by rw [heq, List.cons_append]) ?_
      exact List.forall_mem_cons.mpr ⟨hcredible, hbefore⟩

variable {handler : Handler I σ} {inv : σ → Prop}

/-- A turn of a careful program keeps the invariant, and leaves the program careful. -/
theorem Careful.advance (hcareful : p.Careful credible allowed)
    (hcredible : ∀ call s, inv s → credible ⟨call, (handler call s).1⟩)
    (hkept : ∀ call s, inv s → allowed call → inv (handler call s).2) {s : σ} (hinv : inv s) :
    (p.advance handler s).1.Careful credible allowed ∧ inv (p.advance handler s).2 := by
  induction p with
  | done value => exact ⟨trivial, hinv⟩
  | note event rest ih => exact ih hcareful
  | ask call rest ih =>
    obtain ⟨hallowed, hrest⟩ := hcareful
    -- The answer is credible before the call changes the state, so the rest is careful.
    exact ⟨hrest _ (hcredible call s hinv), hkept call s hinv hallowed⟩

end Program

/-! ### Who makes which calls -/

/-- The next call of a program, if it makes one. -/
def Program.next? : Program I α → Option I.Call
  | .done _ => none
  | .note _ rest => rest.next?
  | .ask call _ => some call

namespace Pool

variable {credible : Exchange I → Prop} {allowed : I.Call → Prop} {handler : Handler I σ}
  {inv : σ → Prop} {p : Pool I σ α}

theorem take_invariant
    (hcredible : ∀ call s, inv s → credible ⟨call, (handler call s).1⟩)
    (hkept : ∀ call s, inv s → allowed call → inv (handler call s).2)
    (turn : Turn σ) (hturn : ∀ change, turn = .surroundings change → ∀ s, inv s → inv (change s))
    (hcareful : ∀ program ∈ p.programs, program.Careful credible allowed) (hinv : inv p.state) :
    (∀ program ∈ (p.take handler turn).programs, program.Careful credible allowed) ∧
      inv (p.take handler turn).state := by
  cases turn with
  | surroundings change => exact ⟨hcareful, hturn change rfl p.state hinv⟩
  | program index =>
    rw [take]
    cases hprogram : p.programs[index]? with
    | none => exact ⟨hcareful, hinv⟩
    | some program =>
      obtain ⟨hadvanced, hstate⟩ :=
        (hcareful program (List.mem_of_getElem? hprogram)).advance hcredible hkept hinv
      refine ⟨fun other hother => ?_, hstate⟩
      -- The other programs have not moved.
      rcases List.mem_or_eq_of_mem_set hother with hold | rfl
      · exact hcareful other hold
      · exact hadvanced

/-- After any turns of careful programs and of surroundings that keep the invariant, it holds. -/
theorem run_invariant
    (hcredible : ∀ call s, inv s → credible ⟨call, (handler call s).1⟩)
    (hkept : ∀ call s, inv s → allowed call → inv (handler call s).2) {turns : List (Turn σ)}
    (hturns : ∀ change, .surroundings change ∈ turns → ∀ s, inv s → inv (change s))
    (hcareful : ∀ program ∈ p.programs, program.Careful credible allowed) (hinv : inv p.state) :
    inv (p.run handler turns).state := by
  induction turns generalizing p with
  | nil => exact hinv
  | cons turn turns ih =>
    -- The invariant is that of the state and of all programs at once.
    rw [run_cons]
    obtain ⟨hcareful', hinv'⟩ := take_invariant hcredible hkept turn
      (fun change heq => hturns change (heq ▸ List.mem_cons_self)) hcareful hinv
    exact ih (fun change hchange => hturns change (List.mem_cons_of_mem _ hchange)) hcareful' hinv'

/-- The programs that make calls of a kind in their turns, in the order of these calls. -/
def callers (kind : I.Call → Bool) (handler : Handler I σ) : List (Turn σ) → Pool I σ α → List Nat
  | [], _ => []
  | .surroundings change :: turns, p =>
    callers kind handler turns (p.take handler (.surroundings change))
  | .program index :: turns, p =>
    (if (p.programs[index]?.bind Program.next?).any kind then [index] else []) ++
      callers kind handler turns (p.take handler (.program index))

end Pool

end Roster
