import Mathlib.Data.List.Forall2
import Roster.Program

/-!
# What a program may show

A program shows a row of exchanges and a value if there are answers to its calls that lead it
there. This says what a program can do whatever its surroundings are: a run shows what its handler's
answers lead to (`Program.shows_run`), and every law below reads off what a program built from
parts shows from what the parts show. Events are passed over.

* `Program.shows_bind` — a program after another one: the exchanges of the first, then those of the
  second.
* `Attempt.shows_bind` — the same for programs that may fail: a failure of the first is the end.

Where the handler is known, `Answers` reads a row of exchanges as the way from one state to another.
-/

namespace Roster

variable {I : Interface} {α β σ : Type}

namespace Program

/-- Some answers lead the program through the exchanges to the value. -/
def Shows : Program I α → List (Exchange I) → α → Prop
  | done value, exchanges, last => exchanges = [] ∧ last = value
  | note _ rest, exchanges, last => rest.Shows exchanges last
  | ask call rest, exchanges, last =>
    ∃ answer behind, exchanges = ⟨call, answer⟩ :: behind ∧ (rest answer).Shows behind last

@[simp] theorem shows_done {value last : α} {exchanges : List (Exchange I)} :
    (done value : Program I α).Shows exchanges last ↔ exchanges = [] ∧ last = value := Iff.rfl

@[simp] theorem shows_ask {call : I.Call} {rest : I.Answer call → Program I α} {last : α}
    {exchanges : List (Exchange I)} :
    (ask call rest).Shows exchanges last ↔
      ∃ answer behind, exchanges = ⟨call, answer⟩ :: behind ∧ (rest answer).Shows behind last :=
  Iff.rfl

/-- What a run shows is something that the program may show. -/
theorem shows_run (handler : Handler I σ) (p : Program I α) (state : σ) :
    p.Shows (p.run handler state).exchanges (p.run handler state).value := by
  induction p generalizing state with
  | done value => exact ⟨rfl, rfl⟩
  | note event rest ih => exact ih state
  | ask call rest ih => exact ⟨_, _, rfl, ih _ _⟩

/-- A program after another one shows the exchanges of both. -/
theorem shows_bind {p : Program I α} {next : α → Program I β} {exchanges : List (Exchange I)}
    {last : β} :
    (p >>= next).Shows exchanges last ↔
      ∃ value before behind, exchanges = before ++ behind ∧ p.Shows before value ∧
        (next value).Shows behind last := by
  induction p generalizing exchanges with
  | done value =>
    constructor
    · exact fun h => ⟨value, [], exchanges, rfl, ⟨rfl, rfl⟩, h⟩
    · rintro ⟨_, _, behind, rfl, ⟨rfl, rfl⟩, h⟩
      exact h
  | note event rest ih => exact ih
  | ask call rest ih =>
    simp only [ask_bind, shows_ask, ih]
    constructor
    · rintro ⟨answer, _, rfl, value, before, behind, rfl, hbefore, hbehind⟩
      exact ⟨value, ⟨call, answer⟩ :: before, behind, rfl, ⟨answer, before, rfl, hbefore⟩, hbehind⟩
    · rintro ⟨value, _, behind, rfl, ⟨answer, before, rfl, hbefore⟩, hbehind⟩
      exact ⟨answer, before ++ behind, rfl, value, before, behind, rfl, hbefore, hbehind⟩

theorem shows_map {p : Program I α} {f : α → β} {exchanges : List (Exchange I)} {last : β} :
    (f <$> p).Shows exchanges last ↔ ∃ value, p.Shows exchanges value ∧ last = f value := by
  rw [← bind_pure_comp, shows_bind]
  simp only [pure_eq_done, shows_done]
  constructor
  · rintro ⟨value, before, _, rfl, hp, rfl, rfl⟩
    exact ⟨value, by simpa using hp, rfl⟩
  · rintro ⟨value, hp, rfl⟩
    exact ⟨value, exchanges, [], by simp, hp, rfl, rfl⟩

end Program

/-! ### Rows of exchanges and states -/

section Answers

variable {handler : Handler I σ}

/-- The exchanges are the handler's answers to the calls, one after another, and lead from the first
state to the last one. -/
def Answers (handler : Handler I σ) : σ → List (Exchange I) → σ → Prop
  | first, [], last => last = first
  | first, e :: rest, last =>
    e.answer = (handler e.call first).1 ∧ Answers handler (handler e.call first).2 rest last

theorem answers_run (handler : Handler I σ) (p : Program I α) (state : σ) :
    Answers handler state (p.run handler state).exchanges (p.run handler state).state := by
  induction p generalizing state with
  | done value => rfl
  | note event rest ih => exact ih state
  | ask call rest ih => exact ⟨rfl, ih _ _⟩

/-- The first of a row of answers is the handler's, and the others lead on from there. -/
theorem Answers.exists_cons {e : Exchange I} {rest : List (Exchange I)} {first last : σ}
    (h : Answers handler first (e :: rest) last) :
    ∃ call, e = ⟨call, (handler call first).1⟩ ∧
      Answers handler (handler call first).2 rest last := by
  obtain ⟨call, answer⟩ := e
  obtain ⟨hanswer, hrest⟩ := h
  change answer = (handler call first).1 at hanswer
  exact ⟨call, by rw [hanswer], hrest⟩

/-- A row after another one leads on from where the first one led to. -/
theorem answers_append {before behind : List (Exchange I)} {first last : σ} :
    Answers handler first (before ++ behind) last ↔
      ∃ middle, Answers handler first before middle ∧ Answers handler middle behind last := by
  induction before generalizing first with
  | nil => simp [Answers]
  | cons e before ih => simp [Answers, ih, and_assoc]

end Answers

/-! ### Results seen as others -/

section MapError

variable {ε ε' : Type} {r : Except ε α} {g : ε → ε'}

theorem mapError_eq_ok {value : α} : r.mapError g = .ok value ↔ r = .ok value := by
  cases r with
  | error e =>
    show Except.error (g e) = .ok value ↔ _
    simp
  | ok other =>
    show Except.ok other = .ok value ↔ _
    simp

theorem mapError_eq_error {e' : ε'} : r.mapError g = .error e' ↔ ∃ e, r = .error e ∧ e' = g e := by
  cases r with
  | error e =>
    show Except.error (g e) = .error e' ↔ _
    simp [eq_comm]
  | ok other =>
    show Except.ok other = .error e' ↔ _
    simp

end MapError

section Bind

variable {ε γ : Type} {r : Except ε α} {next : α → Except ε γ}

theorem bind_eq_ok {value : γ} :
    r.bind next = .ok value ↔ ∃ first, r = .ok first ∧ next first = .ok value := by
  cases r <;> simp [Except.bind]

theorem bind_eq_error {e : ε} :
    r.bind next = .error e ↔ r = .error e ∨ ∃ first, r = .ok first ∧ next first = .error e := by
  cases r <;> simp [Except.bind]

theorem toOption_eq_some {value : α} : r.toOption = some value ↔ r = .ok value := by
  cases r <;> simp [Except.toOption]

theorem map_eq_ok {f : α → β} {value : β} :
    r.map f = .ok value ↔ ∃ first, r = .ok first ∧ f first = value := by
  cases r <;> simp [Except.map]

/-- In a row that is related to another one, each element has a partner. -/
theorem exists_of_mem_forall₂ {R : α → β → Prop} {l : List α} {r : List β} {a : α}
    (h : List.Forall₂ R l r) (ha : a ∈ l) : ∃ b, R a b := by
  induction h with
  | nil => cases ha
  | cons hfirst _ ih =>
    rcases List.mem_cons.mp ha with rfl | hrest
    · exact ⟨_, hfirst⟩
    · exact ih hrest

/-- Where each element of a row has a partner, there is a row of them. -/
theorem exists_forall₂ {R : α → β → Prop} {l : List α} (h : ∀ a ∈ l, ∃ b, R a b) :
    ∃ r, List.Forall₂ R l r := by
  induction l with
  | nil => exact ⟨[], .nil⟩
  | cons a rest ih =>
    obtain ⟨⟨b, hb⟩, hrest⟩ := List.forall_mem_cons.mp h
    obtain ⟨r, hr⟩ := ih hrest
    exact ⟨b :: r, .cons hb hr⟩

/-- Rows whose elements agree in something agree in it as a whole. -/
theorem map_eq_map_of_forall₂ {f : α → γ} {g : β → γ} {l : List α} {r : List β}
    (h : List.Forall₂ (fun a b => f a = g b) l r) : l.map f = r.map g := by
  -- Turned into equality of the mapped rows, the relation is the one that is given.
  rw [← List.forall₂_eq_eq_eq, List.forall₂_map_left_iff, List.forall₂_map_right_iff]
  exact h

/-- A row of results is a result if every one of them is. -/
theorem mapM_eq_ok {f : α → Except ε β} {l : List α} {values : List β} :
    l.mapM f = .ok values ↔ List.Forall₂ (fun a value => f a = .ok value) l values := by
  induction l generalizing values with
  | nil =>
    rw [List.forall₂_nil_left_iff]
    show Except.ok [] = Except.ok values ↔ _
    rw [Except.ok.injEq, eq_comm]
  | cons a rest ih =>
    rw [List.mapM_cons]
    -- The first result decides whether the rest of the row is looked at.
    show (f a).bind (fun value => (rest.mapM f).bind fun others => .ok (value :: others)) = _ ↔ _
    simp only [bind_eq_ok, ih, Except.ok.injEq, List.forall₂_cons_left_iff]
    constructor
    · rintro ⟨value, hvalue, others, hothers, rfl⟩
      exact ⟨value, others, hvalue, hothers, rfl⟩
    · rintro ⟨value, others, hvalue, hothers, rfl⟩
      exact ⟨value, hvalue, others, hothers, rfl⟩

/-- A row of results fails as the first of them that fails. -/
theorem mapM_eq_error {f : α → Except ε β} {l : List α} {e : ε} :
    l.mapM f = .error e ↔ ∃ front a back, l = front ++ a :: back ∧
      (∀ x ∈ front, ∃ value, f x = .ok value) ∧ f a = .error e := by
  induction l with
  | nil =>
    show Except.ok [] = Except.error e ↔ _
    simp
  | cons a rest ih =>
    rw [List.mapM_cons]
    show (f a).bind (fun value => (rest.mapM f).bind fun others => .ok (value :: others)) = _ ↔ _
    simp only [bind_eq_error, ih, reduceCtorEq, and_false, exists_false, or_false]
    constructor
    · -- The first element fails, or it is among those in front and the failure is further behind.
      rintro (hfirst | ⟨value, hvalue, front, x, back, rfl, hfront, hx⟩)
      · exact ⟨[], a, rest, rfl, by simp, hfirst⟩
      · exact ⟨a :: front, x, back, rfl, List.forall_mem_cons.mpr ⟨⟨value, hvalue⟩, hfront⟩, hx⟩
    · -- Conversely the front is empty, or its first element is the one at hand and has a value.
      rintro ⟨_ | ⟨first, front⟩, x, back, hl, hfront, hx⟩
      · obtain ⟨rfl, rfl⟩ := List.cons.inj hl
        exact Or.inl hx
      · obtain ⟨rfl, rfl⟩ := List.cons.inj hl
        obtain ⟨⟨value, hvalue⟩, hothers⟩ := List.forall_mem_cons.mp hfront
        exact Or.inr ⟨value, hvalue, front, x, back, rfl, hothers, hx⟩

end Bind

namespace Result

variable {r : Result α} {kind : FailureKind}

@[simp] theorem as_eq_ok {value : α} : r.as kind = .ok value ↔ r = .ok value :=
  mapError_eq_ok

@[simp] theorem as_eq_error {f : Failure} :
    r.as kind = .error f ↔ ∃ g, r = .error g ∧ f = g.as kind :=
  mapError_eq_error

end Result

/-! ### Attempts -/

namespace Attempt

open Program

/-- Some answers lead the attempt through the exchanges to the result. -/
def Shows (x : Attempt I α) (exchanges : List (Exchange I)) (result : Result α) : Prop :=
  Program.Shows x.run exchanges result

variable {x : Attempt I α} {next : α → Attempt I β} {exchanges : List (Exchange I)}

@[simp] theorem shows_pure {value : α} {result : Result α} :
    Attempt.Shows (pure value : Attempt I α) exchanges result ↔
      exchanges = [] ∧ result = .ok value := Iff.rfl

@[simp] theorem shows_ofResult {r result : Result α} :
    Attempt.Shows (ofResult r : Attempt I α) exchanges result ↔
      exchanges = [] ∧ result = r := Iff.rfl

@[simp] theorem shows_call {call : I.Call} {result : Result (I.Answer call)} :
    Attempt.Shows (Attempt.call call) exchanges result ↔
      ∃ answer, exchanges = [⟨call, answer⟩] ∧ result = .ok answer := by
  show Program.Shows (Except.ok <$> Program.call call) _ _ ↔ _
  simp only [shows_map, Program.call, shows_ask, shows_done]
  constructor
  · rintro ⟨_, ⟨answer, _, rfl, rfl, hvalue⟩, rfl⟩
    exact ⟨answer, rfl, by rw [hvalue]⟩
  · rintro ⟨answer, rfl, rfl⟩
    exact ⟨answer, ⟨answer, [], rfl, rfl, rfl⟩, rfl⟩

@[simp] theorem shows_log {event : Event} {result : Result Unit} :
    Attempt.Shows (Attempt.log event : Attempt I Unit) exchanges result ↔
      exchanges = [] ∧ result = .ok () := Iff.rfl

/-- An attempt after another one: the first fails and that is the end, or it shows its exchanges and
the second one goes on. -/
theorem shows_bind {result : Result β} :
    Attempt.Shows (x >>= next) exchanges result ↔
      (∃ failure, x.Shows exchanges (.error failure) ∧ result = .error failure) ∨
        ∃ value before behind, exchanges = before ++ behind ∧ x.Shows before (.ok value) ∧
          (next value).Shows behind result := by
  show Program.Shows (x.run >>= _) _ _ ↔ _
  rw [Program.shows_bind]
  constructor
  · -- A failure ends the attempt with no exchanges behind it; a value hands over to the second one.
    rintro ⟨value | value, before, behind, rfl, hx, hnext⟩
    · obtain ⟨rfl, rfl⟩ := hnext
      exact Or.inl ⟨value, by simpa [Attempt.Shows] using hx, rfl⟩
    · exact Or.inr ⟨value, before, behind, rfl, hx, hnext⟩
  · -- What failed before is put in front of nothing.
    rintro (⟨failure, hx, rfl⟩ | ⟨value, before, behind, rfl, hx, hnext⟩)
    · exact ⟨_, exchanges, [], by simp, hx, rfl, rfl⟩
    · exact ⟨_, before, behind, rfl, hx, hnext⟩

/-- An attempt that makes no calls, before another one: its result decides whether the other one
takes place. -/
theorem shows_bind_of_silent {r : Result α} {result : Result β}
    (hx : ∀ before first, x.Shows before first ↔ before = [] ∧ first = r) :
    Attempt.Shows (x >>= next) exchanges result ↔
      (∃ failure, r = .error failure ∧ exchanges = [] ∧ result = .error failure) ∨
        ∃ value, r = .ok value ∧ (next value).Shows exchanges result := by
  -- With no exchanges before it, the second attempt has all of them.
  simp only [shows_bind, hx]
  constructor
  · rintro (⟨failure, ⟨rfl, hr⟩, rfl⟩ | ⟨value, _, behind, rfl, ⟨rfl, hr⟩, hnext⟩)
    · exact Or.inl ⟨failure, hr.symm, rfl, rfl⟩
    · exact Or.inr ⟨value, hr.symm, hnext⟩
  · rintro (⟨failure, rfl, rfl, rfl⟩ | ⟨value, rfl, hnext⟩)
    · exact Or.inl ⟨failure, ⟨rfl, rfl⟩, rfl⟩
    · exact Or.inr ⟨value, [], exchanges, rfl, ⟨rfl, rfl⟩, hnext⟩

theorem shows_map {f : α → β} {result : Result β} :
    Attempt.Shows (f <$> x) exchanges result ↔ ∃ r, x.Shows exchanges r ∧ result = r.map f := by
  rw [map_eq_pure_bind, shows_bind]
  simp only [shows_pure]
  constructor
  · -- The function is applied to a value only, and makes no calls.
    rintro (⟨failure, hx, rfl⟩ | ⟨value, before, _, rfl, hx, rfl, rfl⟩)
    · exact ⟨_, hx, rfl⟩
    · exact ⟨_, by simpa using hx, rfl⟩
  · rintro ⟨failure | value, hx, rfl⟩
    · exact Or.inl ⟨failure, hx, rfl⟩
    · exact Or.inr ⟨value, exchanges, [], by simp, hx, rfl, rfl⟩

theorem shows_ofResult_bind {r : Result α} {result : Result β} :
    Attempt.Shows (ofResult r >>= next) exchanges result ↔
      (∃ failure, r = .error failure ∧ exchanges = [] ∧ result = .error failure) ∨
        ∃ value, r = .ok value ∧ (next value).Shows exchanges result :=
  shows_bind_of_silent fun _ _ => shows_ofResult

/-! ### Consultations -/

/-- Makes a call and reads a result off the answer. -/
def consult (call : I.Call) (read : I.Answer call → Result α) : Attempt I α :=
  Attempt.call call >>= fun answer => ofResult (read answer)

theorem consult_bind (call : I.Call) (read : I.Answer call → Result α) (next : α → Attempt I β) :
    consult call read >>= next =
      Attempt.call call >>= fun answer => ofResult (read answer) >>= next :=
  bind_assoc _ _ _

/-- A consultation shows one exchange, and what is read off its answer. -/
@[simp] theorem shows_consult {call : I.Call} {read : I.Answer call → Result α}
    {result : Result α} :
    Attempt.Shows (consult call read) exchanges result ↔
      ∃ answer, exchanges = [⟨call, answer⟩] ∧ result = read answer := by
  simp only [consult, shows_bind, shows_call, shows_ofResult]
  constructor
  · -- Reading an answer makes no call, so a consultation never fails before it has the answer.
    rintro (⟨failure, ⟨answer, -, h⟩, -⟩ | ⟨value, _, _, rfl, ⟨answer, rfl, hvalue⟩, rfl, rfl⟩)
    · cases h
    · obtain rfl := Except.ok.inj hvalue
      exact ⟨value, rfl, rfl⟩
  · rintro ⟨answer, rfl, rfl⟩
    exact Or.inr ⟨answer, [⟨call, answer⟩], [], rfl, ⟨answer, rfl, rfl⟩, rfl, rfl⟩

/-- A consultation before another attempt: what is read off the answer decides whether the other one
takes place. -/
theorem shows_consult_bind {call : I.Call} {read : I.Answer call → Result α} {result : Result β} :
    Attempt.Shows (consult call read >>= next) exchanges result ↔
      ∃ answer behind, exchanges = ⟨call, answer⟩ :: behind ∧
        ((∃ failure, read answer = .error failure ∧ behind = [] ∧ result = .error failure) ∨
          ∃ value, read answer = .ok value ∧ (next value).Shows behind result) := by
  simp only [shows_bind, shows_consult]
  constructor
  · -- Of a failed consultation nothing is left to be shown behind the exchange.
    rintro (⟨failure, ⟨answer, rfl, hread⟩, rfl⟩ | ⟨value, _, behind, rfl, ⟨answer, rfl, hread⟩, h⟩)
    · exact ⟨answer, [], rfl, Or.inl ⟨failure, hread.symm, rfl, rfl⟩⟩
    · exact ⟨answer, behind, rfl, Or.inr ⟨value, hread.symm, h⟩⟩
  · rintro ⟨answer, behind, rfl, ⟨failure, hread, rfl, rfl⟩ | ⟨value, hread, h⟩⟩
    · exact Or.inl ⟨failure, ⟨answer, rfl, hread.symm⟩, rfl⟩
    · exact Or.inr ⟨value, [⟨call, answer⟩], behind, rfl, ⟨answer, rfl, hread.symm⟩, h⟩

theorem shows_through {place : String} {result : Result α} :
    Attempt.Shows (x.through place) exchanges result ↔
      ∃ r, x.Shows exchanges r ∧ result = r.through place :=
  Program.shows_map

theorem through_bind (place : String) (x : Attempt I α) (next : α → Attempt I β) :
    (x >>= next).through place = x.through place >>= fun value => (next value).through place := by
  show (Result.through place <$> (x.run >>= _) : Program I _) =
    (Result.through place <$> x.run >>= _)
  rw [map_bind, bind_map_left]
  refine congrArg (x.run >>= ·) (funext fun r => ?_)
  -- A failure is passed through where it arises, or else behind the attempt that goes on.
  cases r <;> rfl

theorem consult_through (place : String) (call : I.Call) (read : I.Answer call → Result α) :
    (consult call read).through place = consult call fun answer => (read answer).through place :=
  rfl

/-! ### Attempts that make calls of one kind -/

/-- Whatever the answers are, all calls of the attempt are of a kind. -/
def Only (kind : I.Call → Prop) (x : Attempt I α) : Prop :=
  ∀ exchanges result, x.Shows exchanges result → ∀ e ∈ exchanges, kind e.call

namespace Only

variable {kind : I.Call → Prop}

theorem of_silent {r : Result α}
    (hx : ∀ before first, x.Shows before first ↔ before = [] ∧ first = r) : Only kind x := by
  intro exchanges result h
  obtain ⟨rfl, -⟩ := (hx exchanges result).mp h
  simp

theorem ofResult (r : Result α) : Only kind (Attempt.ofResult r : Attempt I α) :=
  of_silent fun _ _ => shows_ofResult

theorem consult {call : I.Call} (hcall : kind call) (read : I.Answer call → Result α) :
    Only kind (Attempt.consult call read) := by
  intro exchanges result h
  obtain ⟨answer, rfl, -⟩ := shows_consult.mp h
  simpa using hcall

theorem bind (hx : Only kind x) (hnext : ∀ value, Only kind (next value)) :
    Only kind (x >>= next) := by
  intro exchanges result h
  rcases shows_bind.mp h with ⟨f, hf, -⟩ | ⟨value, before, behind, rfl, hbefore, hbehind⟩
  · exact hx exchanges _ hf
  · exact List.forall_mem_append.mpr ⟨hx before _ hbefore, hnext value behind _ hbehind⟩

theorem mono {other : I.Call → Prop} (hx : Only kind x) (h : ∀ call, kind call → other call) :
    Only other x :=
  fun exchanges result hshows e he => h e.call (hx exchanges result hshows e he)

theorem through (hx : Only kind x) (place : String) : Only kind (x.through place) := by
  intro exchanges result h
  obtain ⟨r, hr, -⟩ := shows_through.mp h
  exact hx exchanges r hr

theorem mapM {f : β → Attempt I α} (hf : ∀ b, Only kind (f b)) (l : List β) :
    Only kind (l.mapM f) := by
  -- By induction on the row: each of its attempts is followed by those for the rest.
  induction l with
  | nil =>
    rw [List.mapM_nil]
    exact ofResult (.ok [])
  | cons b l ih =>
    rw [List.mapM_cons]
    exact (hf b).bind fun value => ih.bind fun rest => ofResult (.ok (value :: rest))

end Only

end Attempt

end Roster
