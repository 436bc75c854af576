import Roster.Number.Binary
import Roster.Text.Numeral

/-!
# Shortest decimals

The decimal text of a binary fraction: the fewest digits that read back as the same number, and of
the shortest decimals the nearest. The digits are found on the coarsest grid of powers of ten with a
point among the reals that round to the number.
-/

namespace Roster

open Text

/-- A decimal: digits times a power of ten. -/
structure Decimal where
  /-- The digits as a number. -/
  digits : Nat
  /-- The power of ten. -/
  exponent : Int
  deriving DecidableEq, Repr

/-- The reals that round to a number, as a range of quotients with one denominator. -/
structure RoundingRange where
  /-- The numerator of the lower end. -/
  least : Nat
  /-- The numerator of the number itself. -/
  center : Nat
  /-- The numerator of the upper end. -/
  greatest : Nat
  /-- The common denominator. -/
  den : Nat
  /-- Whether the two ends round to the number as well. -/
  closed : Bool

namespace RoundingRange

/-- The reals that round to the size of a number. The step below a power of two is half the step
above it. -/
def ofBinary (x : Binary) : RoundingRange :=
  -- In quarters of the last place the ends of the range are whole numbers.
  let below := if x.mantissa = Binary.leastFull ∧ Binary.leastExponent < x.exponent then 1 else 2
  let (least, center, greatest) := (4 * x.mantissa - below, 4 * x.mantissa, 4 * x.mantissa + 2)
  let e := x.exponent - 2
  let (up, den) := if 0 ≤ e then (Nat.pow 2 e.toNat, 1) else (1, Nat.pow 2 (-e).toNat)
  ⟨least * up, center * up, greatest * up, den, x.mantissa % 2 = 0⟩

/-- The range in units of a power of ten. -/
def inUnits (r : RoundingRange) (k : Int) : RoundingRange :=
  if 0 ≤ k then { r with den := r.den * Nat.pow 10 k.toNat }
  else
    let up := Nat.pow 10 (-k).toNat
    { r with least := r.least * up, center := r.center * up, greatest := r.greatest * up }

/-- Whether a whole number lies in the range. -/
def holds (r : RoundingRange) (d : Nat) : Bool :=
  if r.closed then r.least ≤ d * r.den && d * r.den ≤ r.greatest
  else r.least < d * r.den && d * r.den < r.greatest

/-- The whole number in the range that is nearest to its centre, the even one of two. -/
def nearest? (r : RoundingRange) : Option Nat :=
  let d := r.center / r.den
  let rest := r.center % r.den
  let upFirst := decide (r.den < 2 * rest ∨ (r.den = 2 * rest ∧ d % 2 = 1))
  let (first, second) := if upFirst then (d + 1, d) else (d, d + 1)
  if first ≠ 0 && r.holds first then some first
  else if second ≠ 0 && r.holds second then some second
  else none

/-- The nearest point of the coarsest grid that has one in the range, among the grids from
`10 ^ (n - 345)` downwards. -/
def coarsest? (r : RoundingRange) : Nat → Option Decimal
  | 0 => none
  | n + 1 =>
    let k : Int := n - 344
    match (r.inUnits k).nearest? with
    | some d => some ⟨d, k⟩
    | none => r.coarsest? n

end RoundingRange

/-- How far apart the coarsest and the finest grid are that a number may need. -/
def gridCount : Nat := 660

/-- The shortest decimal of the size of a number. -/
def Binary.shortest (x : Binary) : Decimal :=
  ((RoundingRange.ofBinary x).coarsest? gridCount).getD ⟨0, 0⟩

/-- Writes a decimal: positionally if its first digit stands at most sixteen places before the point
and at most five behind it, else with an exponent. -/
def Decimal.toChars (d : Decimal) : List Char :=
  let digits := ofNat d.digits
  let count := digits.length
  let point : Int := count + d.exponent
  if 0 ≤ d.exponent ∧ point ≤ 16 then
    digits ++ List.replicate d.exponent.toNat '0' ++ ['.', '0']
  else if 0 < point ∧ point ≤ 16 then
    digits.take point.toNat ++ '.' :: digits.drop point.toNat
  else if -5 < point ∧ point ≤ 0 then
    ['0', '.'] ++ List.replicate (-point).toNat '0' ++ digits
  else
    let fraction := if count = 1 then [] else '.' :: digits.drop 1
    digits.take 1 ++ fraction ++ 'e' :: ofInt (point - 1)

/-- The text of a number: its shortest decimal, and `0.0` for zero, after its sign. -/
def Binary.toChars (x : Binary) : List Char :=
  let size := if x.mantissa = 0 then ['0', '.', '0'] else x.shortest.toChars
  if x.negative then '-' :: size else size

end Roster
