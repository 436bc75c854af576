import Roster.Proofs.Spelling

/-!
# Writing an identifier and reading it back

An identifier is written as five groups of digits with hyphens between them
(`Uuid.toChars_eq_intercalate`). That is one of its spellings (`Uuid.spelling_toChars`), so what is
written reads back (`Uuid.ofChars?_toChars`).
-/

namespace Roster.Uuid

/-- The groups of digits of an identifier, as they are written. -/
def groups (u : Uuid) : List (List Char) :=
  let text := u.digits.map Nibble.toChar
  [text.take 8, (text.drop 8).take 4, (text.drop 12).take 4, (text.drop 16).take 4, text.drop 20]

/-- An identifier is written as its groups with hyphens between them. -/
theorem toChars_eq_intercalate (u : Uuid) : u.toChars = List.intercalate ['-'] u.groups := by
  simp [toChars, groups, List.intercalate]

theorem flatten_groups (u : Uuid) : u.groups.flatten = u.digits.map Nibble.toChar := by
  -- Cutting a group off and putting it in front again changes nothing.
  have cut (l : List Char) (n k : Nat) : (l.drop n).take k ++ l.drop (n + k) = l.drop n := by
    rw [← List.drop_drop, List.take_append_drop]
  simp only [groups, List.flatten_cons, List.flatten_nil, List.append_nil]
  -- The groups are put together again from the last one on.
  rw [cut _ 16 4, cut _ 12 4, cut _ 8 4, List.take_append_drop]

theorem length_groups (u : Uuid) : u.groups.map List.length = groupSizes := by
  simp [groups, groupSizes, u.length_digits]

/-- What is written is a spelling of the identifier. -/
theorem spelling_toChars (u : Uuid) : Spelling u u.toChars := by
  refine .grouped ⟨u.groups, u.length_groups, ?_, u.toChars_eq_intercalate⟩
  -- Every digit that is written reads back.
  have hread : Nibble.ofChar? ∘ Nibble.toChar = some := funext Nibble.ofChar?_toChar
  rw [SpellsDigits, u.flatten_groups, List.map_map, hread]

/-- What is written reads back. -/
theorem ofChars?_toChars (u : Uuid) : ofChars? u.toChars = some u :=
  ofChars?_eq_some.mpr u.spelling_toChars

end Roster.Uuid
