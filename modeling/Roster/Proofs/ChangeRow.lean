import Roster.Proofs.Backend
import Roster.Proofs.PolicyDocument

/-!
# Rows of changes of a policy

A policy keeps its members in a text that each change reads again. Nonetheless a row of changes, of
both kinds and by any identities, does what it would do to a list that is kept as one. What one
change does to such a list is said on its own (`Change.revised`).

* `Policy.changed_of_invalid` — if the text is no list, no change of the row gets anywhere.
* `Policy.members_changed` — if it is one, the members are those that the same changes of the list
  come to, however the list was written at first.
* `Policy.changes_follow_list` — what the next change does behind any row of them: its outcome, the
  text that it leaves, and how it is undone.

Whether a change tells that it made a difference is decided by looking an identity up; that this is
the same as a difference between two lists is `Change.matters_iff`.
-/

namespace Roster

namespace Change

variable {c : Change} {id : Uuid} {ids : List Uuid} {p : Policy}

/-- What a change is to make of a list: an identity that is added stands at the end if it is not
there yet, and one that is removed stands nowhere. -/
def revised (c : Change) (id : Uuid) (ids : List Uuid) : List Uuid :=
  match c with
  | add => ids ++ if id ∈ ids then [] else [id]
  | remove => ids.filter (· ≠ id)

theorem members_eq_revised (c : Change) (id : Uuid) (ids : List Uuid) :
    c.members id ids = c.revised id ids := by
  cases c with
  | add =>
    rw [members, revised]
    split_ifs with hmem
    · exact (List.append_nil ids).symm
    · rfl
  | remove => rfl

/-- A change makes a difference exactly if the list is another one behind it. -/
theorem matters_iff : c.matters id ids = true ↔ c.revised id ids ≠ ids := by
  rw [← members_eq_revised]
  constructor
  · intro hmatters hsame
    cases c with
    | add =>
      -- An identity that is appended makes the list longer.
      have hnew : id ∉ ids := by simpa [matters] using hmatters
      have hlonger : ids ++ [id] = ids := (if_neg hnew).symm.trans hsame
      simp at hlonger
    | remove =>
      have hmem : id ∈ ids := by simpa [matters] using hmatters
      -- The identity would be among the members that are left.
      have hleft : id ∈ ids.filter (· ≠ id) := by
        rw [show ids.filter (· ≠ id) = ids from hsame]
        exact hmem
      simp at hleft
  · -- Without a difference the list would be the same one.
    intro hdiffers
    by_contra hnot
    exact hdiffers (members_of_not_matters (Bool.eq_false_iff.mpr hnot))

/-- A change of a policy that lists members: it succeeds, and it stores a list exactly if this is
another one. -/
theorem apply_of_members (h : p.members = .ok ids) :
    c.apply id p = .ok
      (if c.revised id ids = ids then (p, false)
        else (p.withMembers (c.revised id ids), true)) := by
  rw [apply, h]
  show Except.ok _ = Except.ok _
  -- The test for a difference and the one for another list are the same.
  simp only [matters_iff, members_eq_revised, ne_eq, ite_not]

/-- An identity that is new goes again without a trace. -/
theorem revised_remove_add (h : id ∉ ids) : remove.revised id (add.revised id ids) = ids := by
  -- What was there before the identity is not filtered out with it.
  have hkept : ids.filter (· ≠ id) = ids :=
    List.filter_eq_self.mpr fun other hother => decide_eq_true (ne_of_mem_of_not_mem hother h)
  have hadded : add.revised id ids = ids ++ [id] := by
    rw [revised, if_neg h]
  rw [hadded]
  show (ids ++ [id]).filter (· ≠ id) = ids
  rw [List.filter_append, hkept, List.filter_singleton]
  simp

/-- The list that a row of changes leaves of a list. -/
def listAfter (row : List (Change × Uuid)) (ids : List Uuid) : List Uuid :=
  row.foldl (fun ids step => step.1.revised step.2 ids) ids

theorem listAfter_nil (ids : List Uuid) : listAfter [] ids = ids := rfl

theorem listAfter_cons (step : Change × Uuid) (rest : List (Change × Uuid)) (ids : List Uuid) :
    listAfter (step :: rest) ids = listAfter rest (step.1.revised step.2 ids) := rfl

theorem listAfter_concat (row : List (Change × Uuid)) (c : Change) (id : Uuid) (ids : List Uuid) :
    listAfter (row ++ [(c, id)]) ids = c.revised id (listAfter row ids) := by
  simp only [listAfter, List.foldl_append, List.foldl_cons, List.foldl_nil]

end Change

namespace Policy

variable {c : Change} {id : Uuid} {ids : List Uuid} {e : MemberList.Invalid} {p : Policy}

/-- A policy after a row of changes, each by one identity. -/
def changed (row : List (Change × Uuid)) (p : Policy) : Policy :=
  p.edited (row.map fun step => .change step.1 step.2)

theorem changed_cons (step : Change × Uuid) (rest : List (Change × Uuid)) (p : Policy) :
    p.changed (step :: rest) = ((Edit.change step.1 step.2).perform p).changed rest := by
  simp only [changed, edited, List.map_cons, List.foldl_cons]

theorem changed_nil (p : Policy) : p.changed [] = p := rfl

theorem changed_singleton (c : Change) (id : Uuid) (p : Policy) :
    p.changed [(c, id)] = (Edit.change c id).perform p := by
  rw [changed_cons, changed_nil]

theorem changed_append (front back : List (Change × Uuid)) (p : Policy) :
    p.changed (front ++ back) = (p.changed front).changed back := by
  simp only [changed, edited, List.map_append, List.foldl_append]

/-- Changes touch nothing but the text of the list. -/
theorem changed_eq_withUsers (row : List (Change × Uuid)) (p : Policy) :
    p.changed row = p.withUsers (p.changed row).config.users := by
  obtain ⟨users, hrow⟩ := exists_edited_eq (row.map fun step => .change step.1 step.2) p
  rw [changed, hrow, users_withUsers]

/-- The text that is no list stays as it is. -/
theorem changed_of_invalid (h : p.members = .error e) (row : List (Change × Uuid)) :
    p.changed row = p := by
  induction row with
  -- Nothing changes a text that is no list, so each change meets the same text again.
  | nil => rfl
  | cons step rest ih => rw [changed_cons, Edit.perform_change_of_invalid h, ih]

/-- What one change leaves of a policy that lists members. -/
theorem perform_of_members (h : p.members = .ok ids) (c : Change) (id : Uuid) :
    (Edit.change c id).perform p =
      if c.revised id ids = ids then p else p.withMembers (c.revised id ids) := by
  rw [Edit.perform, Change.apply_of_members h]
  by_cases hsame : c.revised id ids = ids
  · rw [if_pos hsame, if_pos hsame]
  · rw [if_neg hsame, if_neg hsame]

/-- The members follow the list, one change after another. -/
theorem members_changed (h : p.members = .ok ids) (row : List (Change × Uuid)) :
    (p.changed row).members = .ok (Change.listAfter row ids) := by
  induction row generalizing p ids with
  | nil => exact h
  | cons step rest ih =>
    have hfirst : ((Edit.change step.1 step.2).perform p).members =
        .ok (step.1.revised step.2 ids) := by
      rw [perform_of_members h]
      -- The list was left or written anew, and reads as the changed one either way.
      split_ifs with hsame
      · rw [hsame]
        exact h
      · exact members_withMembers _ p
    -- The rest of the row starts from what the first change has left.
    rw [changed_cons, Change.listAfter_cons]
    exact ih hfirst

/-- **Changes follow the list.** Behind any row of changes, the next one does this. If the policy's
text was no list at first, then the row has left it alone, the next change fails with an error of
the server, and it leaves the text alone as well. Else the change succeeds, and

* the policy lists what the change makes of the members before it;
* the change tells a difference exactly if that is another list;
* the policy is the same if it is not, and has the list written anew if it is;
* nothing but the text of the list is another than at first;
* if the identity is new, then to add it and to remove it again brings the members back. -/
theorem changes_follow_list (p : Policy) (row : List (Change × Uuid)) (c : Change) (id : Uuid) :
    let before := p.changed row
    let after := p.changed (row ++ [(c, id)])
    (∀ e, p.members = .error e →
      before = p ∧ c.apply id before = .error e ∧ e.failure.kind = .serverError ∧ after = p) ∧
    ∀ first, p.members = .ok first →
      let ids := Change.listAfter row first
      before.members = .ok ids ∧ after.members = .ok (c.revised id ids) ∧
        c.apply id before = .ok (after, decide (c.revised id ids ≠ ids)) ∧
        (c.revised id ids = ids → after = before) ∧
        (c.revised id ids ≠ ids → after.config.users = MemberList.encode (c.revised id ids)) ∧
        after = p.withUsers after.config.users ∧
        (id ∉ ids → (p.changed (row ++ [(.add, id), (.remove, id)])).members = .ok ids) := by
  dsimp only
  refine ⟨fun e hp => ?_, fun first hp => ?_⟩
  · -- Every change of the row fails on the text, and so does the next one.
    have hbefore : p.changed row = p := changed_of_invalid hp row
    refine ⟨hbefore, ?_, rfl, changed_of_invalid hp _⟩
    rw [hbefore, Change.apply, hp]
    rfl
  · -- The next change meets what the row has left of the policy.
    have hafter : p.changed (row ++ [(c, id)]) = (Edit.change c id).perform (p.changed row) := by
      rw [changed_append, changed_singleton]
    have hids := members_changed hp row
    have hnext := members_changed hp (row ++ [(c, id)])
    -- The list behind a row and one more change is the changed list behind the row.
    rw [Change.listAfter_concat] at hnext
    generalize Change.listAfter row first = ids at hids hnext ⊢
    have hone := hafter.trans (perform_of_members hids c id)
    refine ⟨hids, hnext, ?_, fun hsame => ?_, fun hdiffers => ?_, changed_eq_withUsers _ p,
      fun hnew => ?_⟩
    · -- What the change tells follows from the reference list, and so do both cases of what it
      -- leaves.
      rw [Change.apply_of_members hids, hone]
      split_ifs with hsame <;> simp [hsame]
    · rw [hone, if_pos hsame]
    · rw [hone, if_neg hdiffers]
      rfl
    · -- Added and removed again, the row goes on from the same list.
      rw [changed_append, members_changed hids]
      exact congrArg Except.ok (Change.revised_remove_add hnew)

/-- A list that is written in several ways, with one member twice, keeps its text as long as it
names the same members, and is written anew when it does not. A new identity stands at the end. -/
theorem mixed_list_follows :
    let a : Uuid := .uniform 10
    let b : Uuid := .uniform 11
    let c : Uuid := .uniform 12
    let text := "AAAAAAAAAAAAAAAAAAAAAAAAAAAAAAAA, [bbbbbbbbbbbbbbbbbbbbbbbbbbbbbbbb] ," ++
      "\x7baaaaaaaa-aaaa-aaaa-aaaa-aaaaaaaaaaaa\x7d"
    let p := (Policy.listing "policy" []).withUsers text
    p.members = .ok [a, b, a] ∧ p.changed [(.add, b)] = p ∧
      (p.changed [(.add, b), (.remove, a)]).config.users = MemberList.encode [b] ∧
      (p.changed [(.remove, a), (.add, c)]).members = .ok [b, c] ∧
      (p.changed [(.remove, a), (.add, c), (.remove, c)]).members = .ok [b] := by
  intro a b c text p
  have hp : p.members = .ok [a, b, a] := by
    show MemberList.decode text = .ok [a, b, a]
    decide +kernel
  have hkept : Change.add.revised b [a, b, a] = [a, b, a] := by decide +kernel
  have hleft : Change.remove.revised a [a, b, a] = [b] := by decide +kernel
  have hadded : Change.add.revised c [b] = [b, c] := by decide +kernel
  have hnew : [b] ≠ [a, b, a] ∧ c ∉ [b] := by decide +kernel
  -- The rest needs what the policy lists and not the text that it was read from.
  clear_value p
  obtain ⟨-, -, -, hsame, -⟩ := (changes_follow_list p [] .add b).2 _ hp
  obtain ⟨-, -, -, -, htext, -⟩ := (changes_follow_list p [(.add, b)] .remove a).2 _ hp
  obtain ⟨-, hbehind, -, -, -, -, hagain⟩ := (changes_follow_list p [(.remove, a)] .add c).2 _ hp
  simp only [Change.listAfter_cons, Change.listAfter_nil, hkept, hleft, hadded, changed_nil,
    List.nil_append, List.cons_append, forall_const] at hsame htext hbehind hagain
  exact ⟨hp, hsame, htext hnew.1, hbehind, hagain hnew.2⟩

end Policy

end Roster
