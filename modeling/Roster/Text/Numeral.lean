/-!
# Decimal numerals

Whole numbers as text: written in decimal without leading zeros, read with an optional sign and
any number of leading zeros. The signed 64-bit numbers are the ones a numeral of a request may
name.
-/

namespace Roster.Text

/-- The decimal digits of a natural number, the most significant first. -/
def ofNat (n : Nat) : List Char :=
  Nat.toDigits 10 n

/-- The decimal text of a whole number, a minus in front of the negative ones. -/
def ofInt : Int → List Char
  | .ofNat n => ofNat n
  | .negSucc n => '-' :: ofNat (n + 1)

/-- The number that a run of one or more digits names. -/
def readDigits? (s : List Char) : Option Nat :=
  if s ≠ [] ∧ s.all Char.isDigit then some (Nat.ofDigitChars 10 s 0) else none

/-- The number that an optional sign and one or more digits name. -/
def readInt? : List Char → Option Int
  | '+' :: s => (readDigits? s).map Int.ofNat
  | '-' :: s => (readDigits? s).map fun n => -(Int.ofNat n)
  | s => (readDigits? s).map Int.ofNat

/-- The whole numbers that 64 bits with a sign hold. -/
def isWord (i : Int) : Bool :=
  decide (-0x8000000000000000 ≤ i) && decide (i < 0x8000000000000000)

/-- The 64-bit number that a numeral names; nothing if it names none or one that does not fit. -/
def readWord? (s : List Char) : Option Int :=
  (readInt? s).filter isWord

/-! ### Writing, then reading -/

/-- The text of a natural number consists of digits. -/
theorem isDigit_of_mem_ofNat {n : Nat} {c : Char} (h : c ∈ ofNat n) : c.isDigit = true :=
  Nat.isDigit_of_mem_toDigits (by decide) (by decide) h

theorem readDigits?_ofNat (n : Nat) : readDigits? (ofNat n) = some n := by
  have digits : ∀ c ∈ Nat.toDigits 10 n, c.isDigit = true := fun c hc => isDigit_of_mem_ofNat hc
  simpa [readDigits?, ofNat, Nat.ofDigitChars_ten_toDigits] using digits

theorem readInt?_ofInt (i : Int) : readInt? (ofInt i) = some i := by
  cases i with
  | ofNat n =>
    show readInt? (ofNat n) = some (Int.ofNat n)
    -- A text of digits starts with no sign.
    rw [readInt?]
    · rw [readDigits?_ofNat, Option.map_some]
    · rintro s hs
      exact absurd (isDigit_of_mem_ofNat (hs ▸ List.mem_cons_self)) (by decide)
    · rintro s hs
      exact absurd (isDigit_of_mem_ofNat (hs ▸ List.mem_cons_self)) (by decide)
  | negSucc n =>
    show (readDigits? (ofNat (n + 1))).map _ = some (Int.negSucc n)
    rw [readDigits?_ofNat, Option.map_some]
    rfl

theorem readWord?_ofInt {i : Int} (h : isWord i = true) : readWord? (ofInt i) = some i := by
  rw [readWord?, readInt?_ofInt, Option.filter_some, if_pos h]

end Roster.Text
