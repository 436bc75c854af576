import Mathlib.Data.List.Basic
import Roster.Uuid

/-!
# Spellings of identifiers

An identifier is spelled by its digits alone, by its digits in hyphenated groups, by the groups in
braces and by the groups behind the resource namespace, all letters in either case (`Uuid.Spelling`).
These texts read as the identifier, and no others do (`Uuid.ofChars?_eq_some`).

The spellings differ in their lengths and in how they start, so none of them is taken for another
one: a text of hyphenated groups has thirty-six characters and starts with a digit.
-/

namespace Roster

/-- A digit is read from two characters at most. -/
theorem Nibble.eq_of_ofChar? {c : Char} {d : Nibble} (h : ofChar? c = some d) :
    c = d.toChar ∨ c = d.toChar.toUpper := by
  -- The greatest character that is read as a digit is f, which is 102.
  have hsmall : c.toNat < 103 := by
    by_contra hlarge
    have hnot {bound : Char} (hbound : bound.toNat < 103) : ¬ c ≤ bound := fun hle => by
      have hle' : c.toNat ≤ bound.toNat := hle
      omega
    rw [ofChar?, if_neg fun h => hnot (by decide) h.2, if_neg fun h => hnot (by decide) h.2,
      if_neg fun h => hnot (by decide) h.2] at h
    cases h
  -- Of the characters that are left, each is tried with each digit.
  have hall : ∀ (n : Fin 103) (d : Nibble), ofChar? (Char.ofNat n) = some d →
      Char.ofNat n = d.toChar ∨ Char.ofNat n = d.toChar.toUpper := by
    decide +kernel
  have hc := hall ⟨c.toNat, hsmall⟩ d
  rw [Char.ofNat_toNat] at hc
  exact hc h

namespace Uuid

variable {u : Uuid} {s lead : List Char}

/-! ### The texts that name an identifier -/

/-- The characters are the digits, each letter in either case. -/
def SpellsDigits (digits : List Nibble) (s : List Char) : Prop :=
  s.map Nibble.ofChar? = digits.map some

/-- The text is the digits of the identifier in groups, with hyphens between them. -/
def SpellsGroups (u : Uuid) (s : List Char) : Prop :=
  ∃ groups : List (List Char), groups.map List.length = groupSizes ∧
    SpellsDigits u.digits groups.flatten ∧ s = List.intercalate ['-'] groups

/-- The texts that name an identifier. -/
inductive Spelling (u : Uuid) : List Char → Prop where
  /-- The digits alone. -/
  | plain {s : List Char} (h : SpellsDigits u.digits s) : Spelling u s
  /-- The digits in hyphenated groups. -/
  | grouped {s : List Char} (h : SpellsGroups u s) : Spelling u s
  /-- The groups in braces. -/
  | braced {s : List Char} (h : SpellsGroups u s) : Spelling u ('{' :: (s ++ ['}']))
  /-- The groups behind the resource namespace. -/
  | resource {lead s : List Char} (hlead : lead.map Char.toLower = namespaceLead)
      (h : SpellsGroups u s) : Spelling u (lead ++ s)

/-! ### Reading digits and groups -/

theorem mapM_eq_some {α β : Type} {f : α → Option β} {l : List α} {r : List β} :
    l.mapM f = some r ↔ l.map f = r.map some := by
  induction l generalizing r with
  | nil => cases r <;> simp
  | cons a l ih =>
    rw [List.mapM_cons, List.map_cons]
    cases hfirst : f a with
    -- The list fails with its first element, or with the rest of it.
    | none => cases r <;> simp
    | some b =>
      cases hrest : l.mapM f with
      | none => cases r <;> simp [← ih, hrest]
      | some rest => cases r <;> simp [← ih, hrest]

theorem ofPlain?_eq_some : ofPlain? s = some u ↔ SpellsDigits u.digits s := by
  -- Digits are an identifier if there are as many of them as it has.
  have hdigits (digits : List Nibble) : ofDigits? digits = some u ↔ digits = u.digits := by
    obtain ⟨own, hown⟩ := u
    rw [ofDigits?]
    constructor
    · intro h
      split at h
      · exact congrArg Uuid.digits (Option.some.inj h)
      · cases h
    · rintro rfl
      exact dif_pos hown
  simp only [ofPlain?, Option.bind_eq_some_iff, mapM_eq_some, hdigits, exists_eq_right]
  rfl

theorem SpellsDigits.length_eq (h : SpellsDigits u.digits s) : s.length = 32 := by
  have hlength := congrArg List.length h
  rwa [List.length_map, List.length_map, u.length_digits] at hlength

/-- A character of a row of digits is a digit. -/
theorem SpellsDigits.exists_digit {digits : List Nibble} (h : SpellsDigits digits s) {c : Char}
    (hc : c ∈ s) : ∃ d, Nibble.ofChar? c = some d := by
  have hmem : Nibble.ofChar? c ∈ s.map Nibble.ofChar? := List.mem_map_of_mem hc
  rw [h, List.mem_map] at hmem
  obtain ⟨d, -, hd⟩ := hmem
  exact ⟨d, hd.symm⟩

theorem ofGroups?_eq_some : ofGroups? s = some u ↔ SpellsGroups u s := by
  constructor
  · intro h
    rw [ofGroups?] at h
    -- The sizes of the groups are right, and put together they are digits.
    split at h
    · rename_i hsizes
      exact ⟨s.splitOn '-', hsizes, ofPlain?_eq_some.mp h, (List.intercalate_splitOn '-').symm⟩
    · cases h
  · rintro ⟨groups, hsizes, hdigits, rfl⟩
    -- No group holds a hyphen, so cutting at the hyphens gives the groups again.
    have hsplit : (List.intercalate ['-'] groups).splitOn '-' = groups := by
      refine List.splitOn_intercalate '-' (fun g hg hmem => ?_) ?_
      · obtain ⟨d, hd⟩ := hdigits.exists_digit (List.mem_flatten.mpr ⟨g, hg, hmem⟩)
        cases hd
      · rintro rfl
        cases hsizes
    rw [ofGroups?, hsplit, if_pos hsizes]
    exact ofPlain?_eq_some.mpr hdigits

/-- Groups of digits are five texts with hyphens between them. -/
theorem SpellsGroups.exists_five (h : SpellsGroups u s) :
    ∃ a b c d e : List Char, s = a ++ '-' :: (b ++ '-' :: (c ++ '-' :: (d ++ '-' :: e))) ∧
      SpellsDigits u.digits (a ++ b ++ c ++ d ++ e) ∧ a.length = 8 ∧ b.length = 4 ∧
      c.length = 4 ∧ d.length = 4 ∧ e.length = 12 := by
  obtain ⟨groups, hsizes, hdigits, rfl⟩ := h
  -- There are as many groups as there are sizes, so they can be named.
  simp only [groupSizes, List.map_eq_cons_iff, List.map_eq_nil_iff] at hsizes
  obtain ⟨a, _, rfl, ha, b, _, rfl, hb, c, _, rfl, hc, d, _, rfl, hd, e, _, rfl, he, rfl⟩ := hsizes
  refine ⟨a, b, c, d, e, ?_, ?_, ha, hb, hc, hd, he⟩
  · simp [List.intercalate]
  · simpa using hdigits

theorem SpellsGroups.length_eq (h : SpellsGroups u s) : s.length = 36 := by
  obtain ⟨a, b, c, d, e, rfl, -, ha, hb, hc, hd, he⟩ := h.exists_five
  simp only [List.length_append, List.length_cons]
  omega

/-- A character of hyphenated groups is a hyphen or a digit. -/
theorem SpellsGroups.eq_hyphen_or_digit (h : SpellsGroups u s) {x : Char} (hx : x ∈ s) :
    x = '-' ∨ ∃ d, Nibble.ofChar? x = some d := by
  obtain ⟨a, b, c, d, e, rfl, hdigits, -⟩ := h.exists_five
  by_cases hhyphen : x = '-'
  · exact Or.inl hhyphen
  · refine Or.inr (hdigits.exists_digit ?_)
    -- Every character but the hyphens is in one of the five groups.
    simpa [hhyphen, or_assoc] using hx

/-- Groups of digits start with a digit. -/
theorem SpellsGroups.exists_first (h : SpellsGroups u s) :
    ∃ x rest d, s = x :: rest ∧ Nibble.ofChar? x = some d := by
  obtain ⟨a, b, c, d, e, rfl, hdigits, ha, -⟩ := h.exists_five
  obtain ⟨x, a, rfl⟩ := List.exists_cons_of_length_pos (by omega : 0 < a.length)
  obtain ⟨digit, hdigit⟩ := hdigits.exists_digit (c := x) (by simp)
  exact ⟨x, _, digit, rfl, hdigit⟩

/-! ### Unwrapping -/

theorem unwrap_braced (s : List Char) : unwrap ('{' :: (s ++ ['}'])) = s := by
  have hlast : ('{' :: (s ++ ['}'])).getLast? = some '}' := by
    rw [← List.cons_append, List.getLast?_concat]
  rw [unwrap, if_pos ⟨rfl, hlast⟩, List.tail_cons, List.dropLast_concat]

theorem length_of_lead (hlead : lead.map Char.toLower = namespaceLead) : lead.length = 9 := by
  have hlength := congrArg List.length hlead
  rwa [List.length_map] at hlength

theorem unwrap_resource (hlead : lead.map Char.toLower = namespaceLead) (s : List Char) :
    unwrap (lead ++ s) = s := by
  have hlength := length_of_lead hlead
  -- The namespace starts with a letter, so the text is not taken for one in braces.
  have hbrace : (lead ++ s).head? ≠ some '{' := by
    intro hhead
    obtain ⟨x, rest, rfl⟩ := List.exists_cons_of_length_pos (by omega : 0 < lead.length)
    obtain rfl : x = '{' := Option.some.inj hhead
    cases (List.cons.inj hlead).1
  rw [unwrap, if_neg fun h => hbrace h.1, List.take_left' hlength, if_pos hlead,
    List.drop_left' hlength]

theorem unwrap_grouped (h : SpellsGroups u s) : unwrap s = s := by
  obtain ⟨x, rest, d, rfl, hd⟩ := h.exists_first
  -- A digit is neither a brace nor the first letter of the namespace.
  have hbrace : x ≠ '{' := by
    rintro rfl
    cases hd
  have hlead : x.toLower ≠ 'u' := by
    rcases Nibble.eq_of_ofChar? hd with rfl | rfl <;> clear hd hbrace h <;> revert d <;> decide
  rw [unwrap, if_neg fun h => hbrace (Option.some.inj h.1), if_neg]
  exact fun hlower => hlead (List.cons.inj hlower).1

/-- What is inside a wrapping, if there is one. -/
theorem wrapped_unwrap (s : List Char) :
    s = unwrap s ∨ s = '{' :: (unwrap s ++ ['}']) ∨
      ∃ lead, lead.map Char.toLower = namespaceLead ∧ s = lead ++ unwrap s := by
  rw [unwrap]
  -- The three branches of the reader are the three ways of wrapping.
  split_ifs with hbraces hlead
  · obtain ⟨hhead, hlast⟩ := hbraces
    obtain ⟨rest, rfl⟩ := List.head?_eq_some_iff.mp hhead
    have hne : rest ≠ [] := by
      rintro rfl
      cases hlast
    rw [List.getLast?_cons_of_ne_nil hne] at hlast
    -- The first and the last character are the braces, and there is something between them.
    rw [List.tail_cons, List.dropLast_append_getLast? '}' hlast]
    exact Or.inr (Or.inl rfl)
  · exact Or.inr (Or.inr ⟨s.take 9, hlead, (List.take_append_drop 9 s).symm⟩)
  · exact Or.inl rfl

/-! ### Reading spellings -/

/-- The texts that read as an identifier are its spellings. -/
theorem ofChars?_eq_some : ofChars? s = some u ↔ Spelling u s := by
  rw [ofChars?]
  constructor
  · intro h
    split at h
    · exact .plain (ofPlain?_eq_some.mp h)
    · have hgroups := ofGroups?_eq_some.mp h
      -- The text was unwrapped first, and the ways of wrapping are those of the spellings.
      rcases wrapped_unwrap s with hs | hs | ⟨lead, hlead, hs⟩
      · rw [hs]
        exact .grouped hgroups
      · rw [hs]
        exact .braced hgroups
      · rw [hs]
        exact .resource hlead hgroups
  · intro h
    -- Only the digits alone have length 32; the other spellings are longer by their hyphens.
    cases h with
    | plain h => rw [if_pos h.length_eq, ofPlain?_eq_some.mpr h]
    | grouped h =>
      have hlength := h.length_eq
      rw [if_neg (by omega), unwrap_grouped h, ofGroups?_eq_some.mpr h]
    | braced h =>
      have hlength := h.length_eq
      rw [if_neg (by simp [hlength]), unwrap_braced, ofGroups?_eq_some.mpr h]
    | resource hlead h =>
      have hlength := h.length_eq
      have hleadLength := length_of_lead hlead
      rw [if_neg (by simp [hlength, hleadLength]), unwrap_resource hlead, ofGroups?_eq_some.mpr h]

end Uuid

end Roster
