/-!
# Identifiers

An identifier is thirty-two hexadecimal digits. It has several spellings: the digits alone, the
digits in five hyphenated groups, the groups in braces, and the groups after `urn:uuid:`, all of
them in either letter case. It is written in one of them: lower-case hyphenated groups.
-/

namespace Roster

/-- The value of a hexadecimal digit. -/
abbrev Nibble := Fin 16

namespace Nibble

/-- The value of a hexadecimal digit of either case. -/
def ofChar? (c : Char) : Option Nibble :=
  if '0' ≤ c ∧ c ≤ '9' then some (Fin.ofNat 16 (c.toNat - 0x30))
  else if 'a' ≤ c ∧ c ≤ 'f' then some (Fin.ofNat 16 (c.toNat - 0x57))
  else if 'A' ≤ c ∧ c ≤ 'F' then some (Fin.ofNat 16 (c.toNat - 0x37))
  else none

/-- The lower-case hexadecimal digit of a value. -/
def toChar (d : Nibble) : Char :=
  if d.val < 10 then Char.ofNat (0x30 + d.val) else Char.ofNat (0x57 + d.val)

/-- A digit that is written reads back. -/
@[simp] theorem ofChar?_toChar : ∀ d : Nibble, ofChar? d.toChar = some d := by
  decide

end Nibble

/-- An identifier of an identity, a space or a policy member. -/
structure Uuid where
  /-- The hexadecimal digits, the most significant first. -/
  digits : List Nibble
  /-- There are thirty-two of them. -/
  length_digits : digits.length = 32
  deriving DecidableEq

namespace Uuid

/-- The sizes of the hyphenated groups. -/
def groupSizes : List Nat := [8, 4, 4, 4, 12]

/-- An identifier from its digits, if their number is right. -/
def ofDigits? (digits : List Nibble) : Option Uuid :=
  if h : digits.length = 32 then some ⟨digits, h⟩ else none

/-- Reads digits without hyphens. -/
def ofPlain? (s : List Char) : Option Uuid :=
  (s.mapM Nibble.ofChar?).bind ofDigits?

/-- Reads hyphenated groups of digits. -/
def ofGroups? (s : List Char) : Option Uuid :=
  let groups := s.splitOn '-'
  if groups.map List.length = groupSizes then ofPlain? groups.flatten else none

/-- The start of the spelling as a resource name. -/
def namespaceLead : List Char := "urn:uuid:".toList

/-- A spelling without the braces around it or the resource namespace before it. -/
def unwrap (s : List Char) : List Char :=
  if s.head? = some '{' ∧ s.getLast? = some '}' then s.tail.dropLast
  else if (s.take 9).map Char.toLower = namespaceLead then s.drop 9
  else s

/-- The identifier that a text spells. -/
def ofChars? (s : List Char) : Option Uuid :=
  if s.length = 32 then ofPlain? s else ofGroups? (unwrap s)

/-- The identifier that a text spells. -/
def parse? (s : String) : Option Uuid :=
  ofChars? s.toList

/-- The hyphenated lower-case text of an identifier. -/
def toChars (u : Uuid) : List Char :=
  let text := u.digits.map Nibble.toChar
  text.take 8 ++ '-' :: (text.drop 8).take 4 ++ '-' :: (text.drop 12).take 4 ++
    '-' :: (text.drop 16).take 4 ++ '-' :: text.drop 20

/-- The hyphenated lower-case text of an identifier. -/
def text (u : Uuid) : String :=
  String.ofList u.toChars

instance : Inhabited Uuid := ⟨⟨List.replicate 32 0, rfl⟩⟩

end Uuid

end Roster
