/-!
# Blank characters and trimming

The characters with the Unicode property `White_Space`, and cutting characters of a class off both
ends of a text. Trimming touches only the ends: what lies between two kept characters stays, blanks
included.
-/

namespace Roster.Text

/-- The characters with the Unicode property `White_Space`. -/
def isBlank (c : Char) : Bool :=
  let n := c.toNat
  (0x09 ≤ n && n ≤ 0x0D) || n == 0x20 || n == 0x85 || n == 0xA0 || n == 0x1680 ||
    (0x2000 ≤ n && n ≤ 0x200A) || n == 0x2028 || n == 0x2029 || n == 0x202F || n == 0x205F ||
    n == 0x3000

/-- A text without the characters of a class at its start. -/
def trimStart (cls : Char → Bool) (s : List Char) : List Char :=
  s.dropWhile cls

/-- A text without the characters of a class at its end. -/
def trimEnd (cls : Char → Bool) (s : List Char) : List Char :=
  (s.reverse.dropWhile cls).reverse

/-- A text without the characters of a class at its two ends. -/
def trimBoth (cls : Char → Bool) (s : List Char) : List Char :=
  trimEnd cls (trimStart cls s)

/-- A text without blanks at its two ends. -/
def trim (s : List Char) : List Char :=
  trimBoth isBlank s

@[simp] theorem trimStart_nil (cls : Char → Bool) : trimStart cls [] = [] := rfl

@[simp] theorem trimEnd_nil (cls : Char → Bool) : trimEnd cls [] = [] := rfl

@[simp] theorem trimBoth_nil (cls : Char → Bool) : trimBoth cls [] = [] := rfl

@[simp] theorem trim_nil : trim [] = [] := rfl

/-- A text that starts with a kept character loses nothing at its start. -/
theorem trimStart_cons_of_not {cls : Char → Bool} {c : Char} (h : cls c = false) (s : List Char) :
    trimStart cls (c :: s) = c :: s := by
  simp [trimStart, h]

/-- A text that ends in a kept character loses nothing at its end. -/
theorem trimEnd_concat_of_not {cls : Char → Bool} {c : Char} (h : cls c = false) (s : List Char) :
    trimEnd cls (s ++ [c]) = s ++ [c] := by
  simp [trimEnd, h]

/-- The ASCII blanks of the core library are among the Unicode ones. -/
theorem isBlank_of_isWhitespace {c : Char} (h : c.isWhitespace = true) : isBlank c = true := by
  simp only [Char.isWhitespace, Bool.or_eq_true, decide_eq_true_eq] at h
  rcases h with ((rfl | rfl) | rfl) | rfl <;> rfl

end Roster.Text
