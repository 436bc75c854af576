import Mathlib.Data.List.Nodup
import Mathlib.Data.List.Perm.Basic
import Roster.Proofs.Policy

/-!
# What a row of changes comes to

Changes are made to a policy one by one, each on the text that the one before has left, and whether
the policy is another one in the end is told by a flag that each of them may raise. Said at once, a
row of additions puts behind the members those identities that are new, each once, in the order in
which they first appear; a row of removals takes all of them away (`Change.netMembers`).

* `Change.applyEach_of_members` — a row of changes leaves the net members, and the flag tells
  whether these are other members than before.
* `Change.membersAfter_eq` — these are the members that one change after the other comes to.
* `Change.netMembers_self` — the same row once more makes no difference.
* `Change.netMembers_perm` — which identities are in the row decides what is left, up to the order
  of those that are new.
-/

namespace Roster

/-- No item is left twice where repetitions are dropped. -/
theorem nodup_eraseDups {α : Type} [BEq α] [LawfulBEq α] (l : List α) : l.eraseDups.Nodup := by
  match l with
  | [] => simp
  | a :: rest =>
    rw [List.eraseDups_cons, List.nodup_cons]
    refine ⟨fun ha => ?_, nodup_eraseDups _⟩
    have hmem := List.mem_eraseDups.mp ha
    simp at hmem
termination_by l.length
decreasing_by exact Nat.lt_succ_of_le (List.length_filter_le _ _)

namespace Change

variable {c : Change} {id : Uuid} {ids xs ys : List Uuid} {p q : Policy}

/-- What one change for each identity comes to: the new ones behind the members, each once and in
the order in which they first appear, or the members without any of them. -/
def netMembers (c : Change) (xs ids : List Uuid) : List Uuid :=
  match c with
  | add => ids ++ (xs.filter (· ∉ ids)).eraseDups
  | remove => ids.filter (· ∉ xs)

@[simp] theorem netMembers_nil (c : Change) (ids : List Uuid) : c.netMembers [] ids = ids := by
  cases c <;> simp [netMembers]

theorem netMembers_cons (c : Change) (id : Uuid) (xs ids : List Uuid) :
    c.netMembers (id :: xs) ids = c.netMembers xs (c.members id ids) := by
  cases c with
  | add =>
    by_cases hid : id ∈ ids
    · -- Once it is a member, filtering the row drops it wherever it stands.
      simp [netMembers, members, hid]
    · -- Behind the first one, its repetitions are members already.
      have hrest : (xs.filter (· ∉ ids)).filter (fun x => !x == id) =
          xs.filter (· ∉ ids ++ [id]) := by
        rw [List.filter_filter]
        refine List.filter_congr fun x _ => ?_
        by_cases hx : x ∈ ids <;> by_cases heq : x = id <;> simp [hx, heq]
      have hfirst : (id :: xs).filter (· ∉ ids) = id :: xs.filter (· ∉ ids) :=
        List.filter_cons_of_pos (by simpa using hid)
      have hmembers : add.members id ids = ids ++ [id] := if_neg hid
      rw [hmembers, netMembers, netMembers, hfirst, List.eraseDups_cons, hrest, List.append_assoc,
        List.singleton_append]
  | remove =>
    simp only [netMembers, members, List.filter_filter]
    -- Filtering by two conditions in a row is filtering by both.
    refine List.filter_congr fun x _ => ?_
    by_cases hx : x ∈ xs <;> by_cases heq : x = id <;> simp [hx, heq]

/-- The members after one change for each identity are the net members. -/
theorem membersAfter_eq (c : Change) (xs ids : List Uuid) :
    c.membersAfter xs ids = c.netMembers xs ids := by
  induction xs generalizing ids with
  | nil => simp [membersAfter]
  | cons id rest ih =>
    -- What is left after the first change is what the rest starts from.
    rw [netMembers_cons, ← ih]
    rfl

/-- A row of changes leaves the members if and only if none of its changes matters to them. -/
theorem netMembers_eq_iff :
    c.netMembers xs ids = ids ↔ ∀ x ∈ xs, c.matters x ids = false := by
  cases c with
  | add =>
    -- Nothing is appended if and only if no identity of the row is new.
    have hfresh : (xs.filter (· ∉ ids)).eraseDups = [] ↔ ∀ x ∈ xs, x ∈ ids := by
      rw [List.eq_nil_iff_forall_not_mem]
      simp only [List.mem_eraseDups, List.mem_filter, decide_eq_true_eq, not_and, not_not]
    simpa [netMembers, matters] using hfresh
  | remove =>
    simp only [netMembers, matters, List.filter_eq_self, List.contains_eq_mem, decide_eq_true_eq,
      decide_eq_false_iff_not]
    exact ⟨fun h x hx hmem => h x hmem hx, fun h x hmem hx => h x hx hmem⟩

/-- A row with a change that matters leaves other members. -/
theorem netMembers_cons_ne (h : c.matters id ids = true) : c.netMembers (id :: xs) ids ≠ ids := by
  intro heq
  have hnone := netMembers_eq_iff.mp heq id List.mem_cons_self
  rw [h] at hnone
  cases hnone

/-! ### What is left of a policy -/

/-- A policy that lists members lists the net members after a row of changes. It is stored anew,
and told to be another one, exactly if these are other members. -/
theorem applyEach_of_members (h : p.members = .ok ids) (flag : Bool) :
    c.applyEach xs (p, flag) = .ok
      (if c.netMembers xs ids = ids then (p, flag) else (p.withMembers (c.netMembers xs ids), true))
    := by
  -- The flag and the policy change together, at the first change that matters.
  induction xs generalizing p ids flag with
  | nil => simp [applyEach]
  | cons id rest ih =>
    have happly : c.apply id p = .ok
        (if c.matters id ids then (p.withMembers (c.members id ids), true) else (p, false)) := by
      rw [apply, h]
      rfl
    rw [applyEach, happly]
    cases hm : c.matters id ids with
    | false =>
      -- A change that does not matter leaves the members, so the rest alone is the row.
      have hsame : c.netMembers (id :: rest) ids = c.netMembers rest ids := by
        rw [netMembers_cons, members_of_not_matters hm]
      show c.applyEach rest (p, flag || false) = _
      rw [Bool.or_false, ih h, hsame]
    | true =>
      show c.applyEach rest (p.withMembers (c.members id ids), flag || true) = _
      rw [Bool.or_true, ih (Policy.members_withMembers _ p), if_neg (netMembers_cons_ne hm),
        netMembers_cons]
      -- The rest may leave what the first change has stored, or store once more.
      split
      · rename_i hrest
        rw [hrest]
      · rfl

/-- A policy that lists no members cannot be changed. -/
theorem applyEach_of_error {e : MemberList.Invalid} (h : p.members = .error e) (hne : xs ≠ [])
    (flag : Bool) : c.applyEach xs (p, flag) = .error e := by
  obtain ⟨id, rest, rfl⟩ := List.exists_cons_of_ne_nil hne
  rw [applyEach, apply, h]
  rfl

/-- A row with a change in it succeeds on a policy that lists members and on no other. -/
theorem applyEach_eq_ok_iff {differs : Bool} (hne : xs ≠ []) :
    c.applyEach xs (p, false) = .ok (q, differs) ↔
      ∃ ids, p.members = .ok ids ∧
        q = (if c.netMembers xs ids = ids then p else p.withMembers (c.netMembers xs ids)) ∧
        differs = decide (c.netMembers xs ids ≠ ids) := by
  cases hp : p.members with
  -- No list can be read, so a row that is not empty fails at its first change.
  | error e => simp [applyEach_of_error hp hne]
  | ok ids =>
    rw [applyEach_of_members hp]
    simp only [Except.ok.injEq, exists_eq_left']
    by_cases hsame : c.netMembers xs ids = ids
    · simp only [hsame, if_true, Prod.mk.injEq, ne_eq, not_true, decide_false]
      exact and_congr eq_comm eq_comm
    · simp only [hsame, if_false, Prod.mk.injEq, ne_eq, not_false_eq_true, decide_true]
      exact and_congr eq_comm eq_comm

/-- A row that makes no difference leaves the policy as it is. -/
theorem eq_of_applyEach (h : c.applyEach xs (p, false) = .ok (q, false)) : q = p := by
  by_cases hne : xs = []
  · subst hne
    cases h
    rfl
  -- The flag is down, so the net members are the members.
  obtain ⟨ids, -, hq, hsame⟩ := (applyEach_eq_ok_iff hne).mp h
  rw [hq, if_pos (by simpa using hsame)]

/-! ### The same identities again -/

theorem mem_netMembers {x : Uuid} :
    x ∈ c.netMembers xs ids ↔ if c = .add then x ∈ ids ∨ x ∈ xs else x ∈ ids ∧ x ∉ xs := by
  cases c with
  | add =>
    by_cases hx : x ∈ ids <;> simp [netMembers, hx]
  | remove => simp [netMembers]

/-- A row of changes makes no difference to what it has left. -/
theorem netMembers_self (c : Change) (xs ids : List Uuid) :
    c.netMembers xs (c.netMembers xs ids) = c.netMembers xs ids := by
  rw [netMembers_eq_iff]
  intro x hx
  cases c with
  | add =>
    have hmem : x ∈ add.netMembers xs ids := mem_netMembers.mpr (Or.inr hx)
    simp [matters, hmem]
  | remove =>
    have hnot : x ∉ remove.netMembers xs ids := fun hmem => (mem_netMembers.mp hmem).2 hx
    simp [matters, hnot]

theorem applyEach_self {differs : Bool} (h : c.applyEach xs (p, false) = .ok (q, differs)) :
    c.applyEach xs (q, false) = .ok (q, false) := by
  by_cases hne : xs = []
  · subst hne
    rfl
  obtain ⟨ids, hids, rfl, -⟩ := (applyEach_eq_ok_iff hne).mp h
  -- Whether the policy was stored anew or not, it lists the net members.
  have hq : (if c.netMembers xs ids = ids then p else p.withMembers (c.netMembers xs ids)).members =
      .ok (c.netMembers xs ids) := by
    split
    · rename_i hsame
      rw [hids, hsame]
    · exact Policy.members_withMembers _ p
  rw [applyEach_of_members hq, if_pos (netMembers_self c xs ids)]

/-! ### The same identities in another order -/

/-- Which identities a row names decides whether it makes a difference. -/
theorem netMembers_eq_congr (hsame : ∀ x, x ∈ xs ↔ x ∈ ys) :
    c.netMembers xs ids = ids ↔ c.netMembers ys ids = ids := by
  simp only [netMembers_eq_iff, hsame]

/-- Which identities a row of removals names decides what it leaves. -/
theorem netMembers_remove_congr (hsame : ∀ x, x ∈ xs ↔ x ∈ ys) :
    remove.netMembers xs ids = remove.netMembers ys ids :=
  List.filter_congr fun x _ => by simp [hsame x]

/-- Which identities a row names decides what it leaves, up to the order. -/
theorem netMembers_perm (hsame : ∀ x, x ∈ xs ↔ x ∈ ys) :
    (c.netMembers xs ids).Perm (c.netMembers ys ids) := by
  cases c with
  | add =>
    -- The same new identities are appended, and two lists without repetitions with the same
    -- elements are permutations.
    refine .append_left ids ?_
    rw [List.perm_ext_iff_of_nodup (nodup_eraseDups _) (nodup_eraseDups _)]
    simp [hsame]
  | remove => rw [netMembers_remove_congr hsame]

end Change

end Roster
