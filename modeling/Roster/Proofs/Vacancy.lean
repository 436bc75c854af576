import Roster.Proofs.MemberText

/-!
# Texts without a member

A text of blanks and marks names nobody, but not every such text is an empty list. Blanks are taken
off its ends, then marks, then blanks once more, and that is all: a mark behind the second layer of
blanks stays, as the quotes do in `[ "" ]`. So the empty list is read from the texts that are
blanks, marks, blanks, marks and blanks in this order, any of them missing or repeated, and from no
others (`layers_decide`). Other texts of blanks and marks are errors of the server.

Reading a text with a member never gives the empty list, since a text has a part before its first
comma, and each part gives a member.
-/

namespace Roster.MemberList

open Text

variable {s : List Char}

/-! ### Trimming -/

/-- Characters of the class at the ends make no difference. -/
theorem trimBoth_append_append {cls : Char → Bool} {before after : List Char}
    (hbefore : ∀ c ∈ before, cls c = true) (hafter : ∀ c ∈ after, cls c = true) (s : List Char) :
    trimBoth cls (before ++ s ++ after) = trimBoth cls s := by
  have hback : ∀ c ∈ after.reverse, cls c = true := by simpa using hafter
  have hnone : after.dropWhile cls = [] := List.dropWhile_eq_nil_iff.mpr hafter
  rw [trimBoth, trimStart, List.append_assoc, List.dropWhile_append_of_pos hbefore, trimBoth,
    trimStart, List.dropWhile_append]
  split_ifs with hs
  · -- Nothing of the text itself is kept.
    rw [hnone, List.isEmpty_iff.mp hs]
  · rw [trimEnd, List.reverse_append, List.dropWhile_append_of_pos hback, trimEnd]

/-- A text of nothing but blanks is trimmed away, and no other text is. -/
theorem trim_eq_nil_iff : trim s = [] ↔ ∀ c ∈ s, isBlank c = true := by
  constructor
  · intro h c hc
    -- A character that is no blank would still be there.
    by_contra hblank
    have hmem : c ∈ trim s := mem_trimBoth hc (Bool.eq_false_iff.mpr hblank)
    rw [h] at hmem
    cases hmem
  · intro h
    have hnone : ∀ c ∈ ([] : List Char), isBlank c = true := nofun
    have htrim : trim (s ++ [] ++ []) = trim [] := trimBoth_append_append h hnone []
    rwa [List.append_nil, List.append_nil] at htrim

/-! ### Layers -/

/-- Brackets and quotes around blanks, and blanks around these. -/
def Layered (s : List Char) : Prop :=
  ∃ lead before middle after trail : List Char,
    s = lead ++ (before ++ middle ++ after) ++ trail ∧
    (∀ c ∈ lead, isBlank c = true) ∧ (∀ c ∈ before, c ∈ ['[', ']', '"']) ∧
    (∀ c ∈ middle, isBlank c = true) ∧ (∀ c ∈ after, c ∈ ['[', ']', '"']) ∧
    ∀ c ∈ trail, isBlank c = true

theorem trim_of_marks (h : ∀ c ∈ s, isMark c = true) : trim s = s := by
  by_cases hne : s = []
  · subst hne
    rfl
  · have hkeep : trimBoth isBlank ([] ++ s ++ []) = s :=
      trimBoth_surround nofun nofun (fun c hc => (Wraps.of_mark (h c hc)).1) hne
    rwa [List.nil_append, List.append_nil] at hkeep

/-- Trimming takes blanks off marks, and those that the marks enclose only where there are marks on
one side alone. -/
theorem exists_trim_eq {before middle after : List Char} (hbefore : ∀ c ∈ before, isMark c = true)
    (hmiddle : ∀ c ∈ middle, isBlank c = true) (hafter : ∀ c ∈ after, isMark c = true) :
    ∃ inner, trim (before ++ middle ++ after) = before ++ inner ++ after ∧
      ∀ c ∈ inner, isBlank c = true := by
  -- Marks in front or behind may be missing; then the blanks between them are at an end.
  rcases before with _ | ⟨first, before⟩
  · refine ⟨[], ?_, nofun⟩
    have hback : trim (middle ++ after ++ []) = trim after :=
      trimBoth_append_append hmiddle (List.forall_mem_nil _) after
    rw [List.append_nil, trim_of_marks hafter] at hback
    exact hback
  rcases List.eq_nil_or_concat' after with rfl | ⟨after, last, rfl⟩
  · refine ⟨[], ?_, nofun⟩
    have hfront : trim ([] ++ (first :: before) ++ middle) = trim (first :: before) :=
      trimBoth_append_append (List.forall_mem_nil _) hmiddle (first :: before)
    rw [trim_of_marks hbefore] at hfront
    simpa using hfront
  · -- There are marks at both ends, and they are no blanks.
    refine ⟨middle, ?_, hmiddle⟩
    have hfirst : isBlank first = false :=
      (Wraps.of_mark (hbefore first List.mem_cons_self)).1
    have hlast : isBlank last = false :=
      (Wraps.of_mark (hafter last (by simp))).1
    have hstart : trimStart isBlank (first :: before ++ middle ++ (after ++ [last])) =
        first :: before ++ middle ++ (after ++ [last]) := trimStart_cons_of_not hfirst _
    rw [trim, trimBoth, hstart, ← List.append_assoc]
    exact trimEnd_concat_of_not hlast _

/-- The texts that hold no member are the layered ones. -/
theorem isVacant_iff : isVacant s = true ↔ Layered s := by
  rw [isVacant, List.isEmpty_iff, trim_eq_nil_iff]
  constructor
  · intro hinner
    -- Blanks, marks and blanks were taken off in this order, which are the layers from the outside.
    obtain ⟨lead, trail, hs, hlead, htrail⟩ := exists_eq_trimBoth isBlank s
    obtain ⟨before, after, htrim, hbefore, hafter⟩ := exists_eq_trimBoth isMark (trim s)
    refine ⟨lead, before, strip s, after, trail, ?_, hlead, forall_isMark_iff.mp hbefore, hinner,
      forall_isMark_iff.mp hafter, htrail⟩
    rw [strip, ← htrim]
    exact hs
  · rintro ⟨lead, before, middle, after, trail, rfl, hlead, hbefore, hmiddle, hafter, htrail⟩ c hc
    rw [← forall_isMark_iff] at hbefore hafter
    -- The marks are reached behind the outer blanks, and what they enclose is blank.
    obtain ⟨inner, htrim, hinner⟩ := exists_trim_eq hbefore hmiddle hafter
    rw [strip, trim, trimBoth_append_append hlead htrail, ← trim, htrim,
      trimBoth_append_append hbefore hafter] at hc
    exact hinner c (mem_of_mem_trimBoth hc)

/-! ### Reading -/

/-- Whether a text is of marks and blanks is decided by going through it. -/
theorem mark_or_blank (h : (s.all fun c => isMark c || isBlank c) = true) :
    ∀ c ∈ s, c ∈ ['[', ']', '"'] ∨ isBlank c = true := by
  simpa only [List.all_eq_true, Bool.or_eq_true, isMark_iff] using h

/-- No text that holds a member reads as the empty list. -/
theorem decodeChars_eq_nil : decodeChars s = .ok [] ↔ isVacant s = true := by
  rw [decodeChars]
  cases isVacant s with
  | true => simp
  | false =>
    -- A text that is cut has at least one part, so it does not read as the empty list.
    simp only [Bool.false_eq_true, if_false, iff_false, mapM_eq_ok, List.forall₂_nil_right_iff]
    exact List.splitOn_ne_nil ',' s

/-- **The layers decide.** The empty list is read from the layered texts and from no others. Any
other text of marks and blanks is an error of the server, which names what is left when the text is
stripped. -/
theorem layers_decide (text : String) :
    (decode text = .ok [] ↔ Layered text.toList) ∧
      ((∀ c ∈ text.toList, c ∈ ['[', ']', '"'] ∨ isBlank c = true) → ¬ Layered text.toList →
        ∃ e : Invalid, decode text = .error e ∧ e.entry = String.ofList (strip text.toList) ∧
          e.failure.kind = .serverError) := by
  refine ⟨decodeChars_eq_nil.trans isVacant_iff, fun hclasses hlayers => ?_⟩
  -- The text is not layered, so it is read part by part.
  have hvacant : isVacant text.toList = false := by
    rw [← Bool.not_eq_true, isVacant_iff]
    exact hlayers
  -- The text is its own only part, for marks and blanks are no commas.
  have hcomma : ',' ∉ text.toList := fun hmem => by
    rcases hclasses ',' hmem with h | h
    · exact absurd h (by decide)
    · cases h
  have hsplit : text.toList.splitOn ',' = [text.toList] := by
    have hparts : ∀ part ∈ [text.toList], ',' ∉ part := List.forall_mem_singleton.mpr hcomma
    have hone := List.splitOn_intercalate ',' hparts (List.cons_ne_nil _ _)
    rwa [List.intercalate_singleton] at hone
  -- What is left of it spells no identifier, for a spelling has neither marks nor blanks.
  have hspelling (id : Uuid) : ¬ Uuid.Spelling id (strip text.toList) := fun hs => by
    have hplain := plain_of_spelling hs
    obtain ⟨c, rest, hstrip⟩ := List.exists_cons_of_ne_nil hplain.nonempty
    have hc : c ∈ strip text.toList := hstrip ▸ List.mem_cons_self
    obtain ⟨hmark, hblank, -⟩ := hplain.kept c hc
    rcases hclasses c (mem_of_mem_trimBoth (mem_of_mem_trimBoth hc)) with h | h
    · rw [isMark_iff.mpr h] at hmark
      cases hmark
    · rw [hblank] at h
      cases h
  refine ⟨⟨String.ofList (strip text.toList)⟩, ?_, rfl, rfl⟩
  rw [decode, decodeChars_eq_error]
  exact ⟨hvacant, [], text.toList, [], hsplit, List.forall_mem_nil _, hspelling, rfl⟩

/-- Blanks inside the marks and around them are passed over, but not marks inside those blanks. -/
theorem one_layer_too_many :
    decode "\t[\" \"]\n" = .ok [] ∧
      ∃ e, decode "[ \"\" ]" = .error e ∧ e.entry = " \"\" " ∧ e.failure.kind = .serverError := by
  -- The texts are short, so their layers are found by evaluation.
  refine ⟨(layers_decide _).1.mpr (isVacant_iff.mp (by decide +kernel)), ?_⟩
  refine (layers_decide "[ \"\" ]").2 (mark_or_blank (by decide +kernel)) ?_
  rw [← isVacant_iff]
  decide +kernel

/-- A text of marks and blanks need not be an empty list. -/
theorem quotes_inside_blanks_refused :
    ¬ ∀ text : String, (∀ c ∈ text.toList, c ∈ ['[', ']', '"'] ∨ isBlank c = true) →
      decode text = .ok [] := by
  intro hall
  have hempty : decode "[ \"\" ]" = .ok [] := hall _ (mark_or_blank (by decide +kernel))
  have herror : decode "[ \"\" ]" = .error ⟨" \"\" "⟩ := by decide +kernel
  rw [herror] at hempty
  cases hempty

end Roster.MemberList
