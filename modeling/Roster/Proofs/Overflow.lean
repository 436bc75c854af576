import Roster.Proofs.Links

/-!
# No position overflows

Sums, differences and products of words wrap around where they do not fit, and division by zero is
zero. Here the arithmetic of pages is written down once more, operation by operation, with checked
ones: such an operation has a value only if the exact number is a word again, and only if the divisor
is not zero (`Checked`). A slice has a value only if its bounds are in order and in the list
(`Window.slice?`).

As long as lists are shorter than `2 ^ 62`, the checked arithmetic has a value, and it is the one
that the other arithmetic has: for a window at any offset whatever (`Window.checkedOf_eq`), and for
the links around a page (`PageLinks.checkedAround_eq`).
-/

namespace Roster

open Text

/-! ### Checked words -/

namespace Checked

/-- The word without a sign for a number, if it is one. -/
def natural? (n : Nat) : Option UInt64 :=
  if n < UInt64.size then some n.toUInt64 else none

/-- The word with a sign for a number, if it is one. -/
def signed? (i : Int) : Option Int64 :=
  if isWord i then some (Int64.ofInt i) else none

/-- The sum of two words without signs. -/
def sum (v w : UInt64) : Option UInt64 :=
  natural? (v.toNat + w.toNat)

/-- A word without a sign as one with a sign. -/
def cast (w : UInt64) : Option Int64 :=
  signed? w.toNat

/-- The sum of two words. -/
def add (v w : Int64) : Option Int64 :=
  signed? (v.toInt + w.toInt)

/-- The difference of two words. -/
def sub (v w : Int64) : Option Int64 :=
  signed? (v.toInt - w.toInt)

/-- The product of two words. -/
def mul (v w : Int64) : Option Int64 :=
  signed? (v.toInt * w.toInt)

/-- The quotient of two words, rounded towards zero. -/
def div (v w : Int64) : Option Int64 :=
  if w.toInt = 0 then none else signed? (v.toInt.tdiv w.toInt)

/-- The remainder of a division, if there is a quotient. -/
def mod (v w : Int64) : Option Int64 :=
  (div v w).bind fun _ => signed? (v.toInt.tmod w.toInt)

section

variable {v w : UInt64} {a b c : Int64} {i : Int}

/-- A word is the one for the number that it stands for. -/
theorem signed?_eq (h : a.toInt = i) : signed? i = some a := by
  subst h
  -- The number is that of a word, so it is in the range that is checked.
  have hword : isWord a.toInt = true := by
    have hlower := a.le_toInt
    have hupper := a.toInt_lt
    rw [isWord, Bool.and_eq_true, decide_eq_true_eq, decide_eq_true_eq]
    omega
  rw [signed?, if_pos hword, Int64.ofInt_toInt]

theorem sum_eq (hv : v.toNat < 2 ^ 62) (hw : w.toNat < 2 ^ 62) : sum v w = some (v + w) := by
  have hfits : v.toNat + w.toNat < UInt64.size := by
    rw [UInt64.size]
    omega
  rw [sum, natural?, if_pos hfits, Nat.toUInt64_eq, UInt64.ofNat_add, UInt64.ofNat_toNat,
    UInt64.ofNat_toNat]

theorem cast_eq (hw : w.toNat < 2 ^ 62) : cast w = some w.toInt64 :=
  signed?_eq (toInt_toInt64 hw)

theorem add_eq (ha : Counts a) (hb : Counts b) : add a b = some (a + b) :=
  signed?_eq (ha.toInt_add hb)

theorem sub_eq (ha : Counts a) (hb : Counts b) : sub a b = some (a - b) :=
  signed?_eq (ha.toInt_sub hb)

/-- A gap can be divided by a step. -/
theorem div_eq (ha : Counts a) (hpos : 0 < b.toInt) : div a b = some (a / b) := by
  rw [div, if_neg hpos.ne', Int.tdiv_eq_ediv_of_nonneg ha.nonneg]
  exact signed?_eq (PageLinks.toInt_pages ha)

theorem mod_eq (ha : Counts a) (hpos : 0 < b.toInt) : mod a b = some (a % b) := by
  rw [mod, div_eq ha hpos, Option.bind_some]
  -- A remainder is smaller than the divisor, so the word holds it if there is a quotient at all.
  exact signed?_eq (Int64.toInt_mod a b)

end

end Checked

/-! ### Windows -/

namespace Window

/-- The window into a list of some length, with both sums checked. -/
def checkedOf (length offset limit : UInt64) : Option Window := do
  let offset := if offset ≤ length then offset else length
  let reach ← Checked.sum offset limit
  let limit := if length < reach then length else limit
  let reach ← Checked.sum offset limit
  return ⟨offset, limit, if reach ≤ length then reach else length⟩

/-- The items of a list that a window shows, if its bounds are in order and in the list. -/
def slice? {α : Type} (w : Window) (l : List α) : Option (List α) :=
  if w.offset.toNat ≤ w.stop.toNat ∧ w.stop.toNat ≤ l.length then
    some ((l.take w.stop.toNat).drop w.offset.toNat)
  else none

variable {length offset limit : UInt64}

/-- No sum overflows, wherever the window is asked for: an offset behind the list is replaced before
anything is added to it. -/
theorem checkedOf_eq (hlength : length.toNat < 2 ^ 62) (hlimit : limit.toNat < 2 ^ 62)
    (offset : UInt64) : checkedOf length offset limit = some (of length offset limit) := by
  -- What is added is a position in the list and a limit, or the length of the list.
  have hstart : (if offset ≤ length then offset else length).toNat < 2 ^ 62 := by
    split_ifs with hle
    · rw [UInt64.le_iff_toNat_le] at hle
      omega
    · exact hlength
  have hstep : (if length < (if offset ≤ length then offset else length) + limit then length
      else limit).toNat < 2 ^ 62 := by
    split_ifs <;> assumption
  simp only [checkedOf, Option.bind_eq_bind, Checked.sum_eq hstart hlimit, Option.bind_some,
    Checked.sum_eq hstart hstep]
  rfl

/-- The bounds of a window into a list are in order and in the list. -/
theorem slice?_of {α : Type} {l : List α} (hlength : l.length < 2 ^ 62)
    (hlimit : limit.toNat < 2 ^ 62) :
    (of l.length.toUInt64 offset limit).slice? l =
      some ((of l.length.toUInt64 offset limit).items l) := by
  have hcount : l.length.toUInt64.toNat = l.length := toNat_toUInt64 hlength
  rw [slice?, if_pos]
  · rfl
  · -- In numbers the window stops behind its offset and before the end of the list.
    rw [toNat_stop_of (hcount.trans_lt hlength) hlimit, toNat_offset_of, hcount]
    omega

end Window

/-! ### Links -/

/-- A range without what lies before the start of the list, with the sum checked. -/
def PageRange.checkedCut (start size : Int64) : Option PageRange :=
  if start < 0 then (Checked.add size start).map (⟨0, ·⟩) else some ⟨start, size⟩

theorem PageRange.checkedCut_eq {start size : Int64} (hsize : Counts size)
    (hlower : -2 ^ 62 ≤ start.toInt) : checkedCut start size = some (cut start size) := by
  rw [checkedCut, cut]
  split_ifs with hcut
  · have hnonneg := hsize.nonneg
    have hsmall := hsize.small
    -- A negative start takes away from the size, and the sum is a word whatever is left.
    have hnegative : start.toInt < 0 := Int64.lt_iff_toInt_lt.mp hcut
    have hsum : Checked.add size start = some (size + start) := by
      apply Checked.signed?_eq
      rw [Int64.toInt_add, bmod_of_word (by omega) (by omega)]
    rw [hsum, Option.map_some]
  · rfl

namespace PageLinks

/-- Where the last page starts that ends before an offset behind the list, operation by operation.
-/
def checkedStartBehind (offset limit count : Int64) : Option Int64 := do
  let gap ← Checked.sub offset count
  let pages ← Checked.div gap limit
  let pages ← Checked.add pages 1
  let items ← Checked.mul pages limit
  Checked.sub offset items

/-- The range before a page, operation by operation. -/
def checkedBefore (offset limit count : Int64) : Option (Option PageRange) :=
  if 0 < offset ∧ 0 < count then do
    let start ← if offset ≤ count then Checked.sub offset limit
      else checkedStartBehind offset limit count
    let range ← PageRange.checkedCut start limit
    return some range
  else some none

/-- The range behind a page, operation by operation. -/
def checkedAfter (size offset limit count : Int64) : Option (Option PageRange) := do
  let start ← Checked.add offset size
  return if start < count then some ⟨start, limit⟩ else none

/-- The range from the start of the list, operation by operation. -/
def checkedFirst (offset limit : Int64) : Option PageRange := do
  let rest ← Checked.mod offset limit
  return ⟨0, if rest = 0 then limit else rest⟩

/-- The range with the last item of the list, operation by operation. -/
def checkedLast (offset limit count : Int64) : Option PageRange := do
  let start ← if offset < count then do
      let rest ← Checked.sub count offset
      let gap ← Checked.sub rest 1
      let pages ← Checked.div gap limit
      let items ← Checked.mul pages limit
      Checked.add offset items
    else checkedStartBehind offset limit count
  PageRange.checkedCut start limit

/-- The ranges around a page, operation by operation. -/
def checkedAround (size offset limit count : UInt64) : Option PageLinks := do
  let limit ← Checked.cast (if limit = 0 then 1 else limit)
  let size ← Checked.cast size
  let offset ← Checked.cast offset
  let count ← Checked.cast count
  let before ← checkedBefore offset limit count
  let after ← checkedAfter size offset limit count
  let first ← checkedFirst offset limit
  let last ← checkedLast offset limit count
  return ⟨first, before, after, last⟩

section

variable {size offset limit count : Int64}

theorem checkedStartBehind_eq (hoffset : Counts offset) (hlimit : Counts limit)
    (hcount : Counts count) (hpos : 0 < limit.toInt) (hbehind : count.toInt ≤ offset.toInt) :
    checkedStartBehind offset limit count = some (startBehind offset limit count) := by
  -- From here on each operation has its exact result, which is a word.
  have hgap : Counts (offset - count) := hoffset.sub hcount hbehind
  obtain ⟨hpages, hitems, -⟩ := toInt_pagesBeyond hgap hlimit hpos
  have hmore : Checked.add ((offset - count) / limit) 1 = some ((offset - count) / limit + 1) :=
    Checked.signed?_eq (by rw [hpages, toInt_pages hgap]; rfl)
  have hproduct : Checked.mul ((offset - count) / limit + 1) limit =
      some (((offset - count) / limit + 1) * limit) :=
    Checked.signed?_eq (by rw [hitems, hpages])
  -- The start is the exact difference, as was found for the words that are not checked.
  have hstart : Checked.sub offset (((offset - count) / limit + 1) * limit) =
      some (startBehind offset limit count) := by
    apply Checked.signed?_eq
    rw [(toInt_startBehind hoffset hlimit hcount hpos hbehind).1, behind, hitems,
      hoffset.toInt_sub hcount]
  simp only [checkedStartBehind, Option.bind_eq_bind, Checked.sub_eq hoffset hcount,
    Checked.div_eq hgap hpos, hmore, hproduct, hstart, Option.bind_some]

theorem checkedBefore_eq (hoffset : Counts offset) (hlimit : Counts limit) (hcount : Counts count)
    (hpos : 0 < limit.toInt) :
    checkedBefore offset limit count = some (rangeBefore offset limit count) := by
  have hoffsetNonneg := hoffset.nonneg
  have hlimitSmall := hlimit.small
  rw [checkedBefore, rangeBefore]
  split_ifs with hthere hle
  · -- The range ends where the page starts, and may start up to a limit before the list.
    have hlower : -2 ^ 62 ≤ (offset - limit).toInt := by
      rw [hoffset.toInt_sub hlimit]
      omega
    simp only [Option.bind_eq_bind, Checked.sub_eq hoffset hlimit, Option.bind_some,
      PageRange.checkedCut_eq hlimit hlower, Option.pure_def]
  · -- Behind the list, whole pages were counted back, which was found to stay in range.
    have hbehind : count.toInt ≤ offset.toInt := by
      rw [Int64.le_iff_toInt_le] at hle
      omega
    obtain ⟨hstart, hlower⟩ := toInt_startBehind hoffset hlimit hcount hpos hbehind
    rw [← hstart] at hlower
    simp only [Option.bind_eq_bind, checkedStartBehind_eq hoffset hlimit hcount hpos hbehind,
      Option.bind_some, PageRange.checkedCut_eq hlimit hlower, Option.pure_def]
  · rfl

theorem checkedAfter_eq (hsize : Counts size) (hoffset : Counts offset) (limit count : Int64) :
    checkedAfter size offset limit count = some (rangeAfter size offset limit count) := by
  rw [checkedAfter, Checked.add_eq hoffset hsize]
  rfl

theorem checkedFirst_eq (hoffset : Counts offset) (hpos : 0 < limit.toInt) :
    checkedFirst offset limit = some (firstRange offset limit) := by
  rw [checkedFirst, Checked.mod_eq hoffset hpos]
  rfl

theorem checkedLast_eq (hoffset : Counts offset) (hlimit : Counts limit) (hcount : Counts count)
    (hpos : 0 < limit.toInt) :
    checkedLast offset limit count = some (lastRange offset limit count) := by
  rw [checkedLast, lastRange]
  split_ifs with hlt
  · -- Each number on the way to the start is the exact one, which is found for it in whole numbers.
    have hinside : offset.toInt < count.toInt := Int64.lt_iff_toInt_lt.mp hlt
    obtain ⟨hdiff, hgap⟩ := toInt_itemsBehind hoffset hcount hinside
    have hone : Checked.sub (count - offset) 1 = some (count - offset - 1) :=
      Checked.signed?_eq (by rw [hdiff, hcount.toInt_sub hoffset]; rfl)
    obtain ⟨hwhole, hforth, -⟩ := toInt_wholePages hgap hpos
    have hitems : Checked.mul ((count - offset - 1) / limit) limit =
        some ((count - offset - 1) / limit * limit) :=
      Checked.signed?_eq (by rw [hwhole, toInt_pages hgap])
    obtain ⟨hlast, hpages⟩ := toInt_startLast hoffset hcount hpos hinside
    have hstart : Checked.add offset ((count - offset - 1) / limit * limit) =
        some (offset + (count - offset - 1) / limit * limit) :=
      Checked.signed?_eq (by rw [hlast, hwhole, hdiff])
    have hlower : -2 ^ 62 ≤ (offset + (count - offset - 1) / limit * limit).toInt := by
      have hnonneg := hoffset.nonneg
      rw [hlast]
      omega
    simp only [Option.bind_eq_bind, Checked.sub_eq hcount hoffset, hone, Checked.div_eq hgap hpos,
      hitems, hstart, Option.bind_some]
    exact PageRange.checkedCut_eq hlimit hlower
  · -- Where the page is behind the list, the range before it is computed in the same way.
    have hbehind : count.toInt ≤ offset.toInt := by
      rw [Int64.lt_iff_toInt_lt] at hlt
      omega
    obtain ⟨hstart, hlower⟩ := toInt_startBehind hoffset hlimit hcount hpos hbehind
    rw [← hstart] at hlower
    rw [checkedStartBehind_eq hoffset hlimit hcount hpos hbehind]
    exact PageRange.checkedCut_eq hlimit hlower

end

/-- No operation on the way to the links overflows or divides by zero. -/
theorem checkedAround_eq {size offset limit count : UInt64} (hsize : size.toNat < 2 ^ 62)
    (hoffset : offset.toNat < 2 ^ 62) (hlimit : limit.toNat < 2 ^ 62)
    (hcount : count.toNat < 2 ^ 62) :
    checkedAround size offset limit count = some (around size offset limit count) := by
  -- The divisor is positive.
  have hstep : 0 < (if limit = 0 then 1 else limit).toNat ∧
      (if limit = 0 then 1 else limit).toNat < 2 ^ 62 := by
    rw [toNat_step]
    omega
  have hlimits := counts_toInt64 hstep.2
  have hpos : 0 < (if limit = 0 then 1 else limit).toInt64.toInt := by
    rw [toInt_toInt64 hstep.2]
    omega
  have hsizes := counts_toInt64 hsize
  have hoffsets := counts_toInt64 hoffset
  have hcounts := counts_toInt64 hcount
  -- Each step of the computation is some value by now, so the binds are followed one by one.
  simp only [checkedAround, Option.bind_eq_bind, Checked.cast_eq hstep.2, Checked.cast_eq hsize,
    Checked.cast_eq hoffset, Checked.cast_eq hcount, Option.bind_some,
    checkedBefore_eq hoffsets hlimits hcounts hpos, checkedAfter_eq hsizes hoffsets,
    checkedFirst_eq hoffsets hpos, checkedLast_eq hoffsets hlimits hcounts hpos]
  rfl

/-- No operation on the way to the links around a window into a list overflows. -/
theorem checkedAround_of {length size offset limit : UInt64} (hlength : length.toNat < 2 ^ 62)
    (hsize : size.toNat < 2 ^ 62) (hlimit : limit.toNat < 2 ^ 62) :
    let window := Window.of length offset limit
    checkedAround size window.offset window.limit length =
      some (around size window.offset window.limit length) := by
  intro window
  refine checkedAround_eq hsize ?_ ?_ hlength
  · -- The offset of a window is never behind the list, so it is as small as the length.
    rw [Window.toNat_offset_of]
    omega
  · rw [Window.toNat_limit_of hlength hlimit]
    split_ifs <;> assumption

end PageLinks

end Roster
