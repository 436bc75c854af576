import Mathlib.Data.List.TakeWhile
import Roster.MemberList
import Roster.Proofs.Exchanges
import Roster.Proofs.Uuid

/-!
# Writing a member list and reading it back

A part of a list reads as an identifier if a spelling of it is left when the part is stripped
(`decodeEntry_eq_ok`), and a row of such parts with commas between them reads as the identifiers in a
row (`decodeChars_intercalate`). A spelling inside marks is such a part, as no spelling holds a mark,
a blank or a comma (`plain_of_spelling`). The text of a list is a row of them: the brackets belong to
its first and last part (`exists_wraps_encodeChars`). So what is written reads back
(`decode_encode`).
-/

namespace Roster.MemberList

open Text

/-! ### Trimming -/

theorem mem_trimBoth {cls : Char → Bool} {c : Char} {s : List Char} (hs : c ∈ s)
    (hc : cls c = false) : c ∈ trimBoth cls s := by
  -- Dropping from the front ends at the first character that is kept, which is there.
  have hdrop {t : List Char} (ht : c ∈ t) : c ∈ t.dropWhile cls := by
    rw [← List.takeWhile_append_dropWhile (p := cls) (l := t), List.mem_append] at ht
    rcases ht with h | h
    · exact absurd (List.mem_takeWhile_imp h) (by simp [hc])
    · exact h
  simp only [trimBoth, trimEnd, trimStart, List.mem_reverse]
  exact hdrop (List.mem_reverse.mpr (hdrop hs))

theorem mem_of_mem_trimBoth {cls : Char → Bool} {c : Char} {s : List Char}
    (h : c ∈ trimBoth cls s) : c ∈ s := by
  have hdrop := (List.dropWhile_sublist cls).subset (List.mem_reverse.mp h)
  exact (List.dropWhile_sublist cls).subset (List.mem_reverse.mp hdrop)

/-- Trimming takes away what is around a text that starts and ends with kept characters. -/
theorem trimBoth_surround {cls : Char → Bool} {before s after : List Char}
    (hbefore : ∀ c ∈ before, cls c = true) (hafter : ∀ c ∈ after, cls c = true)
    (hs : ∀ c ∈ s, cls c = false) (hne : s ≠ []) : trimBoth cls (before ++ s ++ after) = s := by
  have hstart {t rest : List Char} (ht : ∀ c ∈ t, cls c = false) (htne : t ≠ []) :
      (t ++ rest).dropWhile cls = t ++ rest := by
    obtain ⟨c, t, rfl⟩ := List.exists_cons_of_ne_nil htne
    simp [ht c List.mem_cons_self]
  -- The text in the middle starts and ends with kept characters, so dropping stops there from
  -- either end.
  rw [trimBoth, trimStart, List.append_assoc, List.dropWhile_append_of_pos hbefore,
    hstart hs hne, trimEnd, List.reverse_append,
    List.dropWhile_append_of_pos (by simpa using hafter)]
  have hend : (s.reverse ++ []).dropWhile cls = s.reverse ++ [] :=
    hstart (by simpa using hs) (by simpa using hne)
  rw [List.append_nil] at hend
  rw [hend, List.reverse_reverse]

/-! ### Parts that hold an identifier -/

/-- A text that neither trimming nor cutting at commas touches. -/
structure Plain (s : List Char) : Prop where
  /-- There is something to be kept. -/
  nonempty : s ≠ []
  /-- No character is taken away or cut at. -/
  kept : ∀ c ∈ s, isMark c = false ∧ isBlank c = false ∧ c ≠ ','

theorem kept_of_digit {c : Char} {d : Nibble} (h : Nibble.ofChar? c = some d) :
    isMark c = false ∧ isBlank c = false ∧ c ≠ ',' := by
  -- A digit is one of sixteen characters or an upper case letter, so all of them can be tried.
  rcases Nibble.eq_of_ofChar? h with rfl | rfl <;> clear h <;> revert d <;> decide

theorem kept_of_lead {c : Char} (h : c.toLower ∈ Uuid.namespaceLead) :
    isMark c = false ∧ isBlank c = false ∧ c ≠ ',' := by
  -- A character that is not ASCII is its own lower case, and the namespace is ASCII.
  have hsmall : c.toNat < 128 := by
    by_contra hlarge
    have hupper : ¬ (c.val ≥ 'A'.val ∧ c.val ≤ 'Z'.val) := fun hletter => by
      have hle : c.toNat ≤ 'Z'.toNat := hletter.2
      have hletterZ : 'Z'.toNat = 90 := rfl
      omega
    have hsame : c.toLower = c := dif_neg hupper
    rw [hsame] at h
    have hall : (Uuid.namespaceLead.all fun x => decide (x.toNat < 128)) = true := by decide
    exact hlarge (of_decide_eq_true (List.all_eq_true.mp hall c h))
  -- So it is enough to try the ASCII characters.
  have hall : ∀ n : Fin 128, (Char.ofNat n).toLower ∈ Uuid.namespaceLead →
      isMark (Char.ofNat n) = false ∧ isBlank (Char.ofNat n) = false ∧ Char.ofNat n ≠ ',' := by
    decide +kernel
  have hc := hall ⟨c.toNat, hsmall⟩
  rw [Char.ofNat_toNat] at hc
  exact hc h

/-- No spelling of an identifier is touched. -/
theorem plain_of_spelling {id : Uuid} {s : List Char} (h : Uuid.Spelling id s) : Plain s := by
  -- The groups are made of digits and hyphens, in braces and behind the namespace as well.
  have hgroups {s : List Char} (h : Uuid.SpellsGroups id s) {c : Char} (hc : c ∈ s) :
      isMark c = false ∧ isBlank c = false ∧ c ≠ ',' := by
    rcases h.eq_hyphen_or_digit hc with rfl | ⟨d, hd⟩
    · decide
    · exact kept_of_digit hd
  cases h with
  | plain h =>
    have hlength := h.length_eq
    refine ⟨fun hnil => by simp [hnil] at hlength, fun c hc => ?_⟩
    obtain ⟨d, hd⟩ := h.exists_digit hc
    exact kept_of_digit hd
  | grouped h =>
    have hlength := h.length_eq
    exact ⟨fun hnil => by simp [hnil] at hlength, fun c hc => hgroups h hc⟩
  | @braced inner h =>
    refine ⟨List.cons_ne_nil _ _, fun c hc => ?_⟩
    simp only [List.mem_cons, List.mem_append, List.not_mem_nil, or_false] at hc
    rcases hc with rfl | hc | rfl
    · decide
    · exact hgroups h hc
    · decide
  | @resource lead inner hlead h =>
    have hlength := h.length_eq
    refine ⟨fun hnil => ?_, fun c hc => ?_⟩
    · -- The groups are never empty, whatever stands in front of them.
      rw [(List.append_eq_nil_iff.mp hnil).2] at hlength
      cases hlength
    · rcases List.mem_append.mp hc with hc | hc
      · exact kept_of_lead (hlead ▸ List.mem_map_of_mem hc)
      · exact hgroups h hc

/-- A part of a list that is an identifier inside marks. -/
def Wraps (part : List Char) (id : Uuid) : Prop :=
  ∃ before s after, part = before ++ s ++ after ∧ (∀ c ∈ before, isMark c = true) ∧
    (∀ c ∈ after, isMark c = true) ∧ Plain s ∧ Uuid.ofChars? s = some id

namespace Wraps

variable {part : List Char} {id : Uuid}

theorem cons_mark {c : Char} (hc : isMark c = true) (h : Wraps part id) :
    Wraps (c :: part) id := by
  obtain ⟨before, s, after, rfl, hbefore, hafter, hs⟩ := h
  exact ⟨c :: before, s, after, rfl, List.forall_mem_cons.mpr ⟨hc, hbefore⟩, hafter, hs⟩

theorem concat_mark {c : Char} (hc : isMark c = true) (h : Wraps part id) :
    Wraps (part ++ [c]) id := by
  obtain ⟨before, s, after, rfl, hbefore, hafter, hs⟩ := h
  refine ⟨before, s, after ++ [c], by simp, hbefore, fun d hd => ?_, hs⟩
  rcases List.mem_append.mp hd with h | h
  · exact hafter d h
  · rw [List.mem_singleton.mp h]
    exact hc

theorem of_mark {c : Char} (hc : isMark c = true) : isBlank c = false ∧ c ≠ ',' := by
  simp only [isMark, Bool.or_eq_true, beq_iff_eq] at hc
  rcases hc with (rfl | rfl) | rfl <;> decide

theorem unblank (h : Wraps part id) {c : Char} (hc : c ∈ part) : isBlank c = false ∧ c ≠ ',' := by
  obtain ⟨before, s, after, rfl, hbefore, hafter, hs, -⟩ := h
  simp only [List.mem_append] at hc
  rcases hc with (h | h) | h
  · exact of_mark (hbefore c h)
  · exact (hs.kept c h).2
  · exact of_mark (hafter c h)

/-- Stripping a part leaves the text of the identifier, which reads as the identifier. -/
theorem decodeEntry (h : Wraps part id) : decodeEntry part = .ok id := by
  -- There are no blanks in the part, so trimming it changes nothing.
  have htrim : trim part = part := by
    have hne : part ≠ [] := by
      obtain ⟨before, s, after, rfl, -, -, hs, -⟩ := h
      simp [hs.nonempty]
    have hkeep : trimBoth isBlank ([] ++ part ++ []) = part :=
      trimBoth_surround (by simp) (by simp) (fun c hc => (h.unblank hc).1) hne
    rwa [List.nil_append, List.append_nil] at hkeep
  obtain ⟨before, s, after, hpart, hbefore, hafter, hs, hread⟩ := h
  -- Marks are taken off both ends, up to the plain text.
  have hstrip : strip part = s := by
    rw [strip, htrim, hpart]
    exact trimBoth_surround hbefore hafter (fun c hc => (hs.kept c hc).1) hs.nonempty
  rw [MemberList.decodeEntry, hstrip, hread]

end Wraps

/-! ### Rows of parts -/

/-- A part reads as an identifier if a spelling of it is left when the part is stripped. -/
theorem decodeEntry_eq_ok {part : List Char} {id : Uuid} :
    decodeEntry part = .ok id ↔ Uuid.Spelling id (strip part) := by
  rw [← Uuid.ofChars?_eq_some, decodeEntry]
  cases Uuid.ofChars? (strip part) <;> simp

/-- A text with a part that reads as an identifier is no vacant list. -/
theorem not_vacant_of_decodeEntry {part s : List Char} {id : Uuid}
    (h : decodeEntry part = .ok id) (hs : ∀ c ∈ part, c ∈ s) : isVacant s = false := by
  have hplain := plain_of_spelling (decodeEntry_eq_ok.mp h)
  -- What is left of the part has a character that is kept.
  obtain ⟨c, rest, hstrip⟩ := List.exists_cons_of_ne_nil hplain.nonempty
  have hc : c ∈ strip part := hstrip ▸ List.mem_cons_self
  obtain ⟨hmark, hblank, -⟩ := hplain.kept c hc
  have hpart : c ∈ part := mem_of_mem_trimBoth (mem_of_mem_trimBoth hc)
  -- That character is in the whole list too, and none of the three steps takes it away.
  have hmem : c ∈ trim (strip s) :=
    mem_trimBoth (mem_trimBoth (mem_trimBoth (hs c hpart) hblank) hmark) hblank
  simpa [isVacant] using List.ne_nil_of_mem hmem

theorem mem_intercalate {parts : List (List Char)} {part : List Char} (hpart : part ∈ parts)
    {c : Char} (hc : c ∈ part) : c ∈ List.intercalate [','] parts := by
  induction parts with
  | nil => simp at hpart
  | cons first rest ih =>
    rcases List.mem_cons.mp hpart with rfl | h
    · -- Only a part that is not the last one has a comma behind it.
      cases rest <;> simp [List.intercalate, hc]
    · cases rest with
      | nil => simp at h
      | cons second rest =>
        have hmem := ih h
        simp only [List.intercalate] at hmem
        simp [List.intercalate, hmem]

/-- A row of parts without commas that read as identifiers reads as the identifiers in a row. -/
theorem decodeChars_intercalate {parts : List (List Char)} {ids : List Uuid}
    (h : List.Forall₂ (fun part id => ',' ∉ part ∧ decodeEntry part = .ok id) parts ids)
    (hne : ids ≠ []) : decodeChars (List.intercalate [','] parts) = .ok ids := by
  -- A list that is not empty has a part that reads as an identifier.
  have hvacant : isVacant (List.intercalate [','] parts) = false := by
    cases h with
    | nil => exact absurd rfl hne
    | cons hpart _ =>
      exact not_vacant_of_decodeEntry hpart.2 fun c hc => mem_intercalate List.mem_cons_self hc
  -- No part has a comma, so the list is cut into the parts that it was made of.
  have hsplit : (List.intercalate [','] parts).splitOn ',' = parts := by
    refine List.splitOn_intercalate ',' (fun part hpart => ?_) ?_
    · obtain ⟨id, hcomma, -⟩ := exists_of_mem_forall₂ h hpart
      exact hcomma
    · rintro rfl
      cases h
      exact hne rfl
  rw [decodeChars, hvacant, hsplit]
  exact mapM_eq_ok.mpr (h.imp fun _ _ hpart => hpart.2)

/-! ### The round trip -/

theorem wraps_quoted (id : Uuid) : Wraps (quoted id) id :=
  ⟨['"'], id.toChars, ['"'], rfl, by simp [isMark], by simp [isMark],
    plain_of_spelling id.spelling_toChars, id.ofChars?_toChars⟩

/-- Without the bracket in front, the text of a list is a row of parts, the last of which has the
bracket at the end. -/
theorem exists_wraps_closed (id : Uuid) (ids : List Uuid) :
    ∃ parts, List.Forall₂ Wraps parts (id :: ids) ∧
      List.intercalate [','] ((id :: ids).map quoted) ++ [']'] = List.intercalate [','] parts := by
  induction ids generalizing id with
  | nil =>
    -- The last part takes the bracket at the end.
    refine ⟨[quoted id ++ [']']], ?_, by simp [List.intercalate]⟩
    exact .cons ((wraps_quoted id).concat_mark rfl) .nil
  | cons next ids ih =>
    obtain ⟨parts, hparts, htext⟩ := ih next
    refine ⟨quoted id :: parts, .cons (wraps_quoted id) hparts, ?_⟩
    cases hparts with
    | cons hfirst hrest =>
      -- The text of the rest starts behind the comma, so a part can be put in front.
      simp only [List.intercalate, List.map_cons] at htext ⊢
      simp [htext]

/-- The text of a list that is not empty is a row of parts that hold its members. -/
theorem exists_wraps_encodeChars {ids : List Uuid} (hne : ids ≠ []) :
    ∃ parts, List.Forall₂ Wraps parts ids ∧ encodeChars ids = List.intercalate [','] parts := by
  obtain ⟨id, ids, rfl⟩ := List.exists_cons_of_ne_nil hne
  obtain ⟨parts, hparts, htext⟩ := exists_wraps_closed id ids
  cases hparts with
  | @cons first _ rest _ hfirst hrest =>
    -- The first part takes the bracket at the front.
    refine ⟨('[' :: first) :: rest, .cons (hfirst.cons_mark rfl) hrest, ?_⟩
    rw [encodeChars, List.cons_append, htext]
    cases rest <;> simp [List.intercalate]

/-- What is written reads back. -/
theorem decode_encode (ids : List Uuid) : decode (encode ids) = .ok ids := by
  rw [decode, encode, String.toList_ofList]
  by_cases hne : ids = []
  · subst hne
    rfl
  · obtain ⟨parts, hparts, htext⟩ := exists_wraps_encodeChars hne
    rw [htext]
    refine decodeChars_intercalate (hparts.imp fun part id hpart => ?_) hne
    -- The parts have no commas, and each is read as its identifier.
    exact ⟨fun hcomma => (hpart.unblank hcomma).2 rfl, hpart.decodeEntry⟩

end Roster.MemberList
