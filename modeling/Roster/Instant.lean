import Roster.Text.Numeral

/-!
# Instants

A point in time and its text in the style `2026-01-31T08:15:00.250Z`: always in universal time, with
as many digits behind the second as are needed of none, three, six and nine. A year outside the four
digit ones has a sign.
-/

namespace Roster

open Text

/-- A point in time. -/
structure Instant where
  /-- The whole seconds since the start of 1970. -/
  seconds : Int
  /-- The nanoseconds since that second. A full second of them is the leap second behind it. -/
  nanoseconds : Nat
  deriving DecidableEq, Repr

namespace Instant

instance : Inhabited Instant := ⟨⟨0, 0⟩⟩

/-- The days in 400 years. -/
def daysOfEra : Nat := 146097

/-- The days from the first of March of the year 0 to the first of January 1970. -/
def daysBeforeEpoch : Nat := 719468

/-- The date of a day counted from the first of January 1970: year, month and day of the month.
Years are counted from March, so that the day that some years have more than others is the last
one. -/
def date (day : Int) : Int × Nat × Nat :=
  let day := day + daysBeforeEpoch
  let era := day.fdiv daysOfEra
  let dayOfEra := (day.fmod daysOfEra).toNat
  let yearOfEra := (dayOfEra - dayOfEra / 1460 + dayOfEra / 36524 - dayOfEra / 146096) / 365
  let dayOfYear := dayOfEra - (365 * yearOfEra + yearOfEra / 4 - yearOfEra / 100)
  let monthFromMarch := (5 * dayOfYear + 2) / 153
  let dayOfMonth := dayOfYear - (153 * monthFromMarch + 2) / 5 + 1
  let month := if monthFromMarch < 10 then monthFromMarch + 3 else monthFromMarch - 9
  (yearOfEra + era * 400 + (if month ≤ 2 then 1 else 0), month, dayOfMonth)

/-- A number with zeros in front up to a width. -/
def padded (width n : Nat) : List Char :=
  List.leftpad width '0' (ofNat n)

/-- The text of a year. -/
def yearChars (year : Int) : List Char :=
  if 0 ≤ year ∧ year ≤ 9999 then padded 4 year.toNat
  else (if year < 0 then '-' else '+') :: padded 4 year.natAbs

/-- The fraction of a second, in the fewest groups of three digits. -/
def fractionChars (nanoseconds : Nat) : List Char :=
  if nanoseconds = 0 then []
  else if nanoseconds % 1000000 = 0 then '.' :: padded 3 (nanoseconds / 1000000)
  else if nanoseconds % 1000 = 0 then '.' :: padded 6 (nanoseconds / 1000)
  else '.' :: padded 9 nanoseconds

/-- The text of an instant. -/
def toChars (t : Instant) : List Char :=
  let (year, month, day) := date (t.seconds.fdiv 86400)
  let time := (t.seconds.fmod 86400).toNat
  yearChars year ++ '-' :: padded 2 month ++ '-' :: padded 2 day ++
    'T' :: padded 2 (time / 3600) ++ ':' :: padded 2 (time / 60 % 60) ++
    ':' :: padded 2 (time % 60 + t.nanoseconds / 1000000000) ++
    fractionChars (t.nanoseconds % 1000000000) ++ ['Z']

/-- The text of an instant. -/
def text (t : Instant) : String :=
  String.ofList t.toChars

example : (⟨1709164800, 1000000⟩ : Instant).text = "2024-02-29T00:00:00.001Z" := by decide +kernel

example : (⟨-1, 1⟩ : Instant).text = "1969-12-31T23:59:59.000000001Z" := by decide +kernel

example : (⟨253402300800, 0⟩ : Instant).text = "+10000-01-01T00:00:00Z" := by decide +kernel

end Instant

end Roster
