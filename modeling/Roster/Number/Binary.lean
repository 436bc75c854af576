/-!
# Binary fractions

The finite numbers of the 64-bit binary floating-point format, as a sign and a multiple of a power
of two, and the rounding of a quotient of natural numbers to the nearest of them, a tie going to the
even neighbour. Products and quotients of such numbers are the exact results, rounded once.
-/

namespace Roster

/-- A finite binary floating-point number: its sign and its size `mantissa * 2 ^ exponent`. A number
is in lowest form when the mantissa has 53 bits or the exponent is the least one, `-1074`. -/
structure Binary where
  /-- Whether the number has a minus sign; zero may have one too. -/
  negative : Bool
  /-- The multiple, below `2 ^ 53`. -/
  mantissa : Nat
  /-- The power of two that is multiplied. -/
  exponent : Int
  deriving DecidableEq, Repr

namespace Binary

/-- The least exponent. -/
def leastExponent : Int := -1074

/-- The greatest exponent. -/
def greatestExponent : Int := 971

/-- The least mantissa of 53 bits. -/
def leastFull : Nat := 0x10000000000000

/-- Zero without a sign. -/
def zero : Binary := ⟨false, 0, leastExponent⟩

/-- The quotient as a whole number: the nearest, and of two nearest ones the even one. -/
def roundDiv (num den : Nat) : Nat :=
  let q := num / den
  let r := num % den
  if 2 * r < den ∨ (2 * r = den ∧ q % 2 = 0) then q else q + 1

/-- A quotient divided by a power of two, as a quotient. -/
def scaleBy (num den : Nat) (e : Int) : Nat × Nat :=
  if 0 ≤ e then (num, den * Nat.pow 2 e.toNat) else (num * Nat.pow 2 (-e).toNat, den)

/-- The number nearest to a positive quotient; nothing if it is out of range. -/
def ofQuotient? (num den : Nat) : Option Binary :=
  if num = 0 then some zero
  else
    let lead : Int := (num.log2 : Int) - den.log2
    -- The quotient is between a half and two times this power, so its size is known up to one bit.
    let (n, d) := scaleBy num den lead
    let e := max (if d ≤ n then lead - 52 else lead - 53) leastExponent
    let (n, d) := scaleBy num den e
    let m := roundDiv n d
    -- Rounding up may make a mantissa of 54 bits; that is a power of two.
    let (m, e) := if m = 2 * leastFull then (leastFull, e + 1) else (m, e)
    if e ≤ greatestExponent then some ⟨false, m, e⟩ else none

/-- The number nearest to a natural number. -/
def ofNat? (n : Nat) : Option Binary :=
  ofQuotient? n 1

/-- The size of a number as a quotient. -/
def quotient (x : Binary) : Nat × Nat :=
  if 0 ≤ x.exponent then (x.mantissa * Nat.pow 2 x.exponent.toNat, 1)
  else (x.mantissa, Nat.pow 2 (-x.exponent).toNat)

/-- The rounded product of two sizes. -/
def mul? (x y : Binary) : Option Binary :=
  ofQuotient? (x.quotient.1 * y.quotient.1) (x.quotient.2 * y.quotient.2)

/-- The rounded quotient of two sizes, the second not zero. -/
def div? (x y : Binary) : Option Binary :=
  ofQuotient? (x.quotient.1 * y.quotient.2) (x.quotient.2 * y.quotient.1)

/-- A number with its sign turned round. -/
def neg (x : Binary) : Binary :=
  { x with negative := !x.negative }

/-- The nearest whole number to the size of a number, a half going up. -/
def roundHalfUp (x : Binary) : Nat :=
  (2 * x.quotient.1 + x.quotient.2) / (2 * x.quotient.2)

end Binary

end Roster
