import Roster.Proofs.MemberList

/-!
# The texts of a member list

Many texts name the same list. A part between commas reads as an identifier if and only if it is a
spelling of it with marks around it and blanks around these (`decodeEntry_eq_ok_iff`). So a row of
such parts reads as their identifiers, one for each, and a single other part spoils a text with
commas, wherever it stands (`parts_decide`). The first part that does is the one that is reported
(`decodeChars_eq_error`).

Of all these texts one is written. It reads as the list that it was written for, so different lists
are written differently, and writing a list that was read settles its text (`written_lists_read_back`).
-/

namespace Roster.MemberList

open Text

variable {part s : List Char} {id : Uuid}

/-! ### Parts -/

/-- The marks are brackets and quotes. -/
theorem isMark_iff {c : Char} : isMark c = true ↔ c ∈ ['[', ']', '"'] := by
  simp [isMark, or_assoc]

theorem forall_isMark_iff : (∀ c ∈ s, isMark c = true) ↔ ∀ c ∈ s, c ∈ ['[', ']', '"'] := by
  simp only [isMark_iff]

/-- The part is a spelling of the identifier with any brackets and quotes around it and any blanks
around these. -/
def Decorates (part : List Char) (id : Uuid) : Prop :=
  ∃ lead before s after trail : List Char,
    part = lead ++ (before ++ s ++ after) ++ trail ∧
    (∀ c ∈ lead, isBlank c = true) ∧ (∀ c ∈ before, c ∈ ['[', ']', '"']) ∧ Uuid.Spelling id s ∧
    (∀ c ∈ after, c ∈ ['[', ']', '"']) ∧ ∀ c ∈ trail, isBlank c = true

/-- What trimming takes away are characters of the class at the two ends. -/
theorem exists_eq_trimBoth (cls : Char → Bool) (s : List Char) :
    ∃ before after, s = before ++ trimBoth cls s ++ after ∧ (∀ c ∈ before, cls c = true) ∧
      ∀ c ∈ after, cls c = true := by
  let rest := s.dropWhile cls
  have hstart : s = s.takeWhile cls ++ rest := List.takeWhile_append_dropWhile.symm
  -- Reversed, the end of the text is its start.
  have hend : rest = trimBoth cls s ++ (rest.reverse.takeWhile cls).reverse := by
    rw [trimBoth, trimEnd, trimStart, ← List.reverse_append, List.takeWhile_append_dropWhile,
      List.reverse_reverse]
  refine ⟨s.takeWhile cls, (rest.reverse.takeWhile cls).reverse, ?_, fun c hc => ?_, fun c hc => ?_⟩
  · rw [List.append_assoc, ← hend]
    exact hstart
  · exact List.mem_takeWhile_imp hc
  · exact List.mem_takeWhile_imp (List.mem_reverse.mp hc)

/-- Stripping a part that decorates an identifier leaves the spelling of it. -/
theorem Decorates.spelling_strip (h : Decorates part id) : Uuid.Spelling id (strip part) := by
  obtain ⟨lead, before, s, after, trail, rfl, hlead, hbefore, hs, hafter, htrail⟩ := h
  rw [← forall_isMark_iff] at hbefore hafter
  have hplain := plain_of_spelling hs
  have hwraps : Wraps (before ++ s ++ after) id :=
    ⟨before, s, after, rfl, hbefore, hafter, hplain, Uuid.ofChars?_eq_some.mpr hs⟩
  -- Marks are no blanks, so the blanks go first and the marks after them.
  have htrim : trim (lead ++ (before ++ s ++ after) ++ trail) = before ++ s ++ after :=
    trimBoth_surround hlead htrail (fun c hc => (hwraps.unblank hc).1) (by simp [hplain.nonempty])
  rw [strip, htrim, trimBoth_surround hbefore hafter (fun c hc => (hplain.kept c hc).1)
    hplain.nonempty]
  exact hs

/-- A part reads as an identifier if and only if it decorates it. -/
theorem decodeEntry_eq_ok_iff : decodeEntry part = .ok id ↔ Decorates part id := by
  rw [decodeEntry_eq_ok]
  constructor
  · intro hs
    -- Trimming takes off blanks at the ends, and then marks, each on both sides.
    obtain ⟨lead, trail, hpart, hlead, htrail⟩ := exists_eq_trimBoth isBlank part
    obtain ⟨before, after, htrim, hbefore, hafter⟩ := exists_eq_trimBoth isMark (trim part)
    refine ⟨lead, before, strip part, after, trail, ?_, hlead, forall_isMark_iff.mp hbefore, hs,
      forall_isMark_iff.mp hafter, htrail⟩
    rw [strip, ← htrim]
    exact hpart
  · exact fun h => h.spelling_strip

/-- What decorates an identifier is not cut further. -/
theorem Decorates.comma_notMem (h : Decorates part id) : ',' ∉ part := by
  obtain ⟨lead, before, s, after, trail, rfl, hlead, hbefore, hs, hafter, htrail⟩ := h
  intro hcomma
  simp only [List.mem_append] at hcomma
  -- No layer holds a comma: blanks and marks are no commas, and neither does a spelling have one.
  rcases hcomma with (hmem | (hmem | hmem) | hmem) | hmem
  · cases hlead _ hmem
  · exact absurd (hbefore _ hmem) (by decide)
  · exact ((plain_of_spelling hs).kept _ hmem).2.2 rfl
  · exact absurd (hafter _ hmem) (by decide)
  · cases htrail _ hmem

/-- A part that is no identifier is reported by what is left of it when it is stripped. -/
theorem decodeEntry_eq_error {e : Invalid} :
    decodeEntry part = .error e ↔
      (∀ id, ¬ Uuid.Spelling id (strip part)) ∧ e = ⟨String.ofList (strip part)⟩ := by
  simp only [← Uuid.ofChars?_eq_some, decodeEntry]
  -- What is left of the part is a spelling or is reported.
  cases Uuid.ofChars? (strip part) <;> simp [eq_comm]

/-! ### Texts -/

/-- A text with a comma is no vacant list. -/
theorem not_vacant_of_comma (h : ',' ∈ s) : isVacant s = false := by
  -- A comma is neither a blank nor a mark, so none of the steps takes it away.
  have hmem : ',' ∈ trim (strip s) := mem_trimBoth (mem_trimBoth (mem_trimBoth h rfl) rfl) rfl
  simpa [isVacant] using List.ne_nil_of_mem hmem

/-- A text that cannot be read has a first part that is no identifier, and this is reported. -/
theorem decodeChars_eq_error {e : Invalid} :
    decodeChars s = .error e ↔ isVacant s = false ∧ ∃ front part back,
      s.splitOn ',' = front ++ part :: back ∧ (∀ other ∈ front, ∃ id, Decorates other id) ∧
      (∀ id, ¬ Uuid.Spelling id (strip part)) ∧ e = ⟨String.ofList (strip part)⟩ := by
  rw [decodeChars]
  cases isVacant s with
  | true => simp
  | false =>
    simp only [Bool.false_eq_true, if_false, mapM_eq_error, decodeEntry_eq_ok_iff,
      decodeEntry_eq_error, true_and]

/-- **The parts decide.** A row of parts that decorate identifiers, joined with commas, reads as
these identifiers, in order and one for each part. A text with a comma, one part of which is not left
as a spelling when it is stripped, is an error of the server, which names the first such part. -/
theorem parts_decide :
    (∀ parts ids, parts ≠ [] → List.Forall₂ Decorates parts ids →
      decode (String.ofList (List.intercalate [','] parts)) = .ok ids) ∧
    ∀ text : String, ',' ∈ text.toList → ∀ part ∈ text.toList.splitOn ',',
      (∀ id, ¬ Uuid.Spelling id (strip part)) →
      ∃ front first back, text.toList.splitOn ',' = front ++ first :: back ∧
        (∀ other ∈ front, ∃ id, Decorates other id) ∧
        (∀ id, ¬ Uuid.Spelling id (strip first)) ∧
        decode text = .error ⟨String.ofList (strip first)⟩ ∧
        (Invalid.mk (String.ofList (strip first))).failure.kind = .serverError := by
  refine ⟨fun parts ids hne hparts => ?_, fun text hcomma part hpart hspoilt => ?_⟩
  · have hids : ids ≠ [] := by
      rintro rfl
      exact hne (List.forall₂_nil_right_iff.mp hparts)
    rw [decode, String.toList_ofList]
    refine decodeChars_intercalate (hparts.imp fun part id hdecorates => ?_) hids
    exact ⟨hdecorates.comma_notMem, decodeEntry_eq_ok_iff.mpr hdecorates⟩
  · cases hread : decode text with
    | ok ids =>
      -- If the text were a list, then every part of it would be an identifier.
      have hvacant := not_vacant_of_comma hcomma
      rw [decode, decodeChars, hvacant] at hread
      obtain ⟨id, hid⟩ := exists_of_mem_forall₂ (mapM_eq_ok.mp hread) hpart
      exact absurd (decodeEntry_eq_ok.mp hid) (hspoilt id)
    | error e =>
      -- The text is not read, so it has a first part that is no identifier.
      obtain ⟨-, front, first, back, hsplit, hfront, hfirst, rfl⟩ := decodeChars_eq_error.mp hread
      exact ⟨front, first, back, hsplit, hfront, hfirst, rfl, rfl⟩

/-- Spellings of different forms in one list are read, and a gap between them is not. -/
theorem mixed_forms_read :
    let mixed := " [\"AAAAaaaaAAAAaaaaAAAAaaaaAAAAaaaa\",\turn:uuid:BBBBBBBB-bbbb-bbbb-bbbb-bbbbbbbbbbbb]"
    let gap := "[bbbbbbbbbbbbbbbbbbbbbbbbbbbbbbbb, ,\"aaaaaaaaaaaaaaaaaaaaaaaaaaaaaaaa\"]"
    decode mixed = .ok [⟨List.replicate 32 10, rfl⟩, ⟨List.replicate 32 11, rfl⟩] ∧
      ∃ e, decode gap = .error e ∧ e.failure.kind = .serverError := by
  intro mixed gap
  obtain ⟨hread, hspoilt⟩ := parts_decide
  constructor
  · refine hread [" [\"AAAAaaaaAAAAaaaaAAAAaaaaAAAAaaaa\"".toList,
      "\turn:uuid:BBBBBBBB-bbbb-bbbb-bbbb-bbbbbbbbbbbb]".toList] _ (by simp) ?_
    -- Each part is read by evaluation, and is a decorated spelling for that reason.
    refine .cons (decodeEntry_eq_ok_iff.mp ?_) (.cons (decodeEntry_eq_ok_iff.mp ?_) .nil)
    · decide +kernel
    · decide +kernel
  · -- The part between the commas is blank, and nothing is left of it.
    have hblank (id : Uuid) : ¬ Uuid.Spelling id (strip [' ']) := by
      rw [← Uuid.ofChars?_eq_some]
      intro hread
      cases hread
    obtain ⟨-, first, -, -, -, -, herror, hkind⟩ :=
      hspoilt gap (by decide +kernel) [' '] (by decide +kernel) hblank
    exact ⟨_, herror, hkind⟩

/-! ### Writing what was read -/

/-- The text that a list is written as once it has been read. -/
def canonical (users : String) : Except Invalid String :=
  (decode users).map encode

/-- **What is written reads back.** A list is read from the text that it is written as, so different
lists are written differently. If a text can be read, then the text that its list is written as reads
as the same list, and stays as it is when it is read and written again. -/
theorem written_lists_read_back :
    (∀ ids, decode (encode ids) = .ok ids) ∧ Function.Injective encode ∧
      ∀ users ids, decode users = .ok ids → canonical users = .ok (encode ids) ∧
        decode (encode ids) = .ok ids ∧ canonical (encode ids) = .ok (encode ids) := by
  have hcanonical {users : String} {ids : List Uuid} (h : decode users = .ok ids) :
      canonical users = .ok (encode ids) := by
    rw [canonical, h]
    rfl
  refine ⟨decode_encode, fun ids others hsame => ?_, fun users ids hread => ?_⟩
  · -- Written alike, both are read from the same text.
    have hread : decode (encode ids) = decode (encode others) := congrArg decode hsame
    rw [decode_encode, decode_encode] at hread
    exact Except.ok.inj hread
  · exact ⟨hcanonical hread, decode_encode ids, hcanonical (decode_encode ids)⟩

end Roster.MemberList
