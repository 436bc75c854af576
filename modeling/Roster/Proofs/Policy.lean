import Mathlib.Data.List.Basic
import Roster.Policy
import Roster.Proofs.MemberList

/-!
# What changes do to a policy

A change reads the member list of a policy, changes it as a list, and writes it back if that makes a
difference. As a written list reads back, the members of the changed policy are the changed members
(`Change.apply_eq_ok`); nothing but the text of the list is touched. A row of changes does the same
step by step (`Change.applyEach_eq_ok`).
-/

namespace Roster

@[simp] theorem Policy.members_withMembers (ids : List Uuid) (p : Policy) :
    (p.withMembers ids).members = .ok ids :=
  MemberList.decode_encode ids

namespace Change

variable {c : Change} {id : Uuid} {ids : List Uuid} {p q : Policy}

theorem members_of_not_matters (h : c.matters id ids = false) : c.members id ids = ids := by
  -- An identity that is added and is there, or is removed and is not, leaves the list as it was.
  cases c with
  | add =>
    have hmem : id ∈ ids := by simpa [matters] using h
    exact if_pos hmem
  | remove =>
    have hmem : id ∉ ids := by simpa [matters] using h
    exact List.filter_eq_self.mpr fun other hother =>
      decide_eq_true (ne_of_mem_of_not_mem hother hmem)

/-- What a change that succeeds does: the members are the changed ones, and the rest of the policy
stays. -/
theorem apply_eq_ok {differs : Bool} (h : c.apply id p = .ok (q, differs)) :
    ∃ ids, p.members = .ok ids ∧ q.members = .ok (c.members id ids) ∧
      ∃ users, q = p.withUsers users := by
  cases hids : p.members with
  | error e =>
    rw [apply, hids] at h
    cases h
  | ok ids =>
    rw [apply, hids] at h
    refine ⟨ids, rfl, ?_⟩
    -- Only where the list is another one is the policy written anew.
    cases hm : c.matters id ids with
    | true =>
      simp only [Except.map, hm, if_true, Except.ok.injEq, Prod.mk.injEq] at h
      obtain ⟨rfl, rfl⟩ := h
      exact ⟨Policy.members_withMembers _ p, _, rfl⟩
    | false =>
      simp only [Except.map, hm, Except.ok.injEq] at h
      obtain ⟨rfl, rfl⟩ := Prod.mk.inj h
      rw [members_of_not_matters hm]
      exact ⟨hids, _, p.withUsers_self.symm⟩

/-! ### Rows of changes -/

/-- Makes one change for each identity in turn, and tells whether one of them made a difference, or
one before them did. -/
def applyEach (c : Change) : List Uuid → Policy × Bool → Except MemberList.Invalid (Policy × Bool)
  | [], state => .ok state
  | id :: rest, (p, changed) =>
    (c.apply id p).bind fun (p, differs) => applyEach c rest (p, changed || differs)

/-- The members after one change for each identity in turn. -/
def membersAfter (c : Change) (xs ids : List Uuid) : List Uuid :=
  xs.foldl (fun ids id => c.members id ids) ids

/-- What a row of changes that succeeds does: the members are the changed ones, and the rest of the
policy stays. -/
theorem applyEach_eq_ok {xs : List Uuid} {before after : Bool}
    (h : c.applyEach xs (p, before) = .ok (q, after)) :
    (∀ ids, p.members = .ok ids → q.members = .ok (c.membersAfter xs ids)) ∧
      ∃ users, q = p.withUsers users := by
  induction xs generalizing p before with
  | nil =>
    cases h
    -- No change leaves the policy as it is, with the member list that it has.
    exact ⟨fun ids hids => hids, _, q.withUsers_self.symm⟩
  | cons id rest ih =>
    cases happly : c.apply id p with
    | error e =>
      rw [applyEach, happly] at h
      cases h
    | ok result =>
      obtain ⟨middle, differs⟩ := result
      rw [applyEach, happly] at h
      -- The member lists of the steps are joined; the rest is the same policy throughout.
      obtain ⟨ids, hids, hmiddle, users, rfl⟩ := apply_eq_ok happly
      obtain ⟨hmembers, users', rfl⟩ := ih h
      refine ⟨fun ids' hids' => ?_, users', rfl⟩
      obtain rfl : ids = ids' := Except.ok.inj (hids.symm.trans hids')
      exact hmembers _ hmiddle

/-- A member that is not among the identities to be removed stays one. -/
theorem mem_membersAfter {x : Uuid} {xs : List Uuid} (hx : x ∈ ids)
    (hkept : c = .remove → x ∉ xs) : x ∈ c.membersAfter xs ids := by
  induction xs generalizing ids with
  | nil => exact hx
  | cons id rest ih =>
    -- Behind the first change the identity is still a member, and the rest does not remove it
    -- either.
    refine ih ?_ fun hc hmem => hkept hc (List.mem_cons_of_mem id hmem)
    cases c with
    | add =>
      show x ∈ if id ∈ ids then ids else ids ++ [id]
      split
      · exact hx
      · exact List.mem_append_left _ hx
    | remove =>
      -- The identity removed is another one.
      have hne : x ≠ id := fun heq => hkept rfl (heq ▸ List.mem_cons_self)
      exact List.mem_filter.mpr ⟨hx, decide_eq_true hne⟩

end Change

end Roster
