import Roster.Proofs.Window

/-!
# Links in plain numbers

Where the four links around a page lead, said in whole numbers. Each kind of range has a lemma for
any offset, in the list or behind it (`PageLinks.rangeBefore_eq_some`,
`PageLinks.rangeAfter_eq_some`, `PageLinks.firstRange_spec`, `PageLinks.lastRange_spec`). A page of
a list never starts behind its end, which makes the numbers simpler (`PageRequest.prev_linksIn` and
the lemmas behind it).
-/

namespace Roster

/-! ### Ranges -/

namespace PageRange

variable {r : PageRange} {start size : Int64}

/-- What of a range lies before the list is cut off. -/
theorem cut_spec (hsize : Counts size) (hlower : -2 ^ 62 ≤ start.toInt) :
    (cut start size).start.toInt = max start.toInt 0 ∧
      (cut start size).size.toInt = size.toInt + min start.toInt 0 := by
  obtain ⟨hnonneg, hsmall⟩ := hsize
  rw [cut]
  -- What starts before the list is cut by as much, and nothing else is.
  split_ifs with hcut <;> rw [Int64.lt_iff_toInt_lt, Int64.toInt_zero] at hcut
  · rw [Int64.toInt_zero, Int64.toInt_add, bmod_of_word (by omega) (by omega)]
    omega
  · show start.toInt = max start.toInt 0 ∧ size.toInt = size.toInt + min start.toInt 0
    omega

theorem eq_iff_toInt {r r' : PageRange} :
    r = r' ↔ r.start.toInt = r'.start.toInt ∧ r.size.toInt = r'.size.toInt := by
  rw [Int64.toInt_inj, Int64.toInt_inj, PageRange.mk.injEq]

end PageRange

namespace PageLinks

variable {size offset limit count : Int64} {r : PageRange}

/-- A limit of zero counts as one. -/
theorem toNat_step (limit : UInt64) :
    (if limit = 0 then 1 else limit).toNat = max limit.toNat 1 := by
  have hone : UInt64.toNat 1 = 1 := rfl
  have hzero : UInt64.toNat 0 = 0 := rfl
  split_ifs with hnone
  · rw [hnone]
    omega
  · -- A word that is not zero is at least one.
    have hne : limit.toNat ≠ 0 := fun h => hnone (UInt64.toNat_inj.mp (h.trans hzero.symm))
    omega

/-- How many whole pages there are in a gap. -/
theorem toInt_pages {gap : Int64} (hgap : Counts gap) :
    (gap / limit).toInt = gap.toInt / limit.toInt := by
  have hnonneg := hgap.nonneg
  have hsmall := hgap.small
  have hquotient : (gap.toInt / limit.toInt).natAbs ≤ gap.toInt.natAbs :=
    Int.natAbs_ediv_le_natAbs gap.toInt limit.toInt
  -- Both are nonnegative, so rounding towards zero is rounding down, and the quotient is no
  -- greater.
  rw [Int64.toInt_div, Int.tdiv_eq_ediv_of_nonneg hnonneg, bmod_of_word (by omega) (by omega)]

/-- The whole pages in a gap, counted in items. -/
theorem toInt_wholePages {gap : Int64} (hgap : Counts gap) (hpos : 0 < limit.toInt) :
    (gap / limit * limit).toInt = gap.toInt / limit.toInt * limit.toInt ∧
      0 ≤ gap.toInt / limit.toInt * limit.toInt ∧
      gap.toInt / limit.toInt * limit.toInt ≤ gap.toInt := by
  have hsmall := hgap.small
  have hpages : 0 ≤ gap.toInt / limit.toInt := Int.ediv_nonneg hgap.nonneg hpos.le
  have hwhole : gap.toInt / limit.toInt * limit.toInt ≤ gap.toInt :=
    Int.ediv_mul_le _ hpos.ne'
  have hforth : 0 ≤ gap.toInt / limit.toInt * limit.toInt := Int.mul_nonneg hpages hpos.le
  refine ⟨?_, hforth, hwhole⟩
  -- The product is at most the gap, so the word holds it.
  rw [Int64.toInt_mul, toInt_pages hgap, bmod_of_word (by omega) (by omega)]

/-- One page more than the whole ones in a gap: how many pages these are, and how many items. -/
theorem toInt_pagesBeyond {gap : Int64} (hgap : Counts gap) (hlimit : Counts limit)
    (hpos : 0 < limit.toInt) :
    (gap / limit + 1).toInt = gap.toInt / limit.toInt + 1 ∧
      ((gap / limit + 1) * limit).toInt = (gap.toInt / limit.toInt + 1) * limit.toInt ∧
      gap.toInt < (gap.toInt / limit.toInt + 1) * limit.toInt ∧
      (gap.toInt / limit.toInt + 1) * limit.toInt ≤ gap.toInt + limit.toInt := by
  have hgapNonneg := hgap.nonneg
  have hgapSmall := hgap.small
  have hlimitSmall := hlimit.small
  have hone : Int64.toInt 1 = 1 := rfl
  have hpages : 0 ≤ gap.toInt / limit.toInt := Int.ediv_nonneg hgapNonneg hpos.le
  have hfew : gap.toInt / limit.toInt ≤ gap.toInt := Int.ediv_le_self _ hgapNonneg
  -- There are no more pages than items in the gap, so one more is still a word.
  have hmore : (gap / limit + 1).toInt = gap.toInt / limit.toInt + 1 := by
    rw [Int64.toInt_add, toInt_pages hgap, hone, bmod_of_word (by omega) (by omega)]
  have hbeyond : gap.toInt < (gap.toInt / limit.toInt + 1) * limit.toInt :=
    Int.lt_ediv_add_one_mul_self _ hpos
  have hwhole : gap.toInt / limit.toInt * limit.toInt ≤ gap.toInt :=
    Int.ediv_mul_le _ hpos.ne'
  have hsum : (gap.toInt / limit.toInt + 1) * limit.toInt =
      gap.toInt / limit.toInt * limit.toInt + limit.toInt := by
    rw [Int.add_mul, Int.one_mul]
  refine ⟨hmore, ?_, hbeyond, by omega⟩
  rw [Int64.toInt_mul, hmore, bmod_of_word (by omega) (by omega)]

/-- Where a range starts that ends whole pages before an offset behind the list. -/
def behind (offset limit count : Int) : Int :=
  offset - ((offset - count) / limit + 1) * limit

/-- No number on the way leaves the words. -/
theorem toInt_startBehind (hoffset : Counts offset) (hlimit : Counts limit) (hcount : Counts count)
    (hpos : 0 < limit.toInt) (hbehind : count.toInt ≤ offset.toInt) :
    (startBehind offset limit count).toInt = behind offset.toInt limit.toInt count.toInt ∧
      -2 ^ 62 ≤ behind offset.toInt limit.toInt count.toInt := by
  -- The gap from the end of the list to the offset is what the pages are counted in.
  have hdiff : (offset - count).toInt = offset.toInt - count.toInt := hoffset.toInt_sub hcount
  obtain ⟨-, hitems, hbeyond, hreach⟩ :=
    toInt_pagesBeyond (hoffset.sub hcount hbehind) hlimit hpos
  rw [hdiff] at hitems hbeyond hreach
  have hoffsetSmall := hoffset.small
  have hlimitSmall := hlimit.small
  have hcountNonneg := hcount.nonneg
  -- One page more than the whole ones touches the list.
  rw [startBehind, behind, Int64.toInt_sub, hitems, bmod_of_word (by omega) (by omega)]
  omega

/-- The range before a page starts a page before it, or whole pages where the page is behind the
list, and what of it lies before the list is cut off. -/
theorem rangeBefore_eq_some (hoffset : Counts offset) (hlimit : Counts limit)
    (hcount : Counts count) (hpos : 0 < limit.toInt) :
    rangeBefore offset limit count = some r ↔ 0 < offset.toInt ∧ 0 < count.toInt ∧
      let start := if offset.toInt ≤ count.toInt then offset.toInt - limit.toInt
        else behind offset.toInt limit.toInt count.toInt
      r.start.toInt = max start 0 ∧ r.size.toInt = limit.toInt + min start 0 := by
  have hstart : (if offset ≤ count then offset - limit else startBehind offset limit count).toInt =
      (if offset.toInt ≤ count.toInt then offset.toInt - limit.toInt
        else behind offset.toInt limit.toInt count.toInt) ∧
      -2 ^ 62 ≤ (if offset ≤ count then offset - limit
        else startBehind offset limit count).toInt := by
    by_cases hle : offset.toInt ≤ count.toInt
    · have hnonneg := hoffset.nonneg
      have hsmall := hlimit.small
      -- One page before the offset is below zero by less than a page.
      rw [if_pos hle, if_pos (Int64.le_iff_toInt_le.mpr hle), hoffset.toInt_sub hlimit]
      omega
    · obtain ⟨hbehind, hlower⟩ := toInt_startBehind hoffset hlimit hcount hpos (by omega)
      rw [if_neg hle, if_neg (fun h => hle (Int64.le_iff_toInt_le.mp h)), hbehind]
      exact ⟨rfl, hlower⟩
  -- A range is the one that is cut if its numbers are.
  obtain ⟨hrange, hrangeSize⟩ := PageRange.cut_spec hlimit hstart.2
  rw [hstart.1] at hrange hrangeSize
  simp only [rangeBefore, Int64.lt_iff_toInt_lt, Int64.toInt_zero, Option.ite_none_right_eq_some,
    Option.some.injEq, and_assoc]
  rw [eq_comm, PageRange.eq_iff_toInt, hrange, hrangeSize]

/-- The range behind a page starts where it ends. -/
theorem rangeAfter_eq_some (hsize : Counts size) (hoffset : Counts offset) :
    rangeAfter size offset limit count = some r ↔ offset.toInt + size.toInt < count.toInt ∧
      r.start.toInt = offset.toInt + size.toInt ∧ r.size = limit := by
  have hsum : (offset + size).toInt = offset.toInt + size.toInt := hoffset.toInt_add hsize
  simp only [rangeAfter, Int64.lt_iff_toInt_lt, hsum, Option.ite_none_right_eq_some,
    Option.some.injEq]
  rw [eq_comm, PageRange.eq_iff_toInt, hsum, Int64.toInt_inj]

/-- The first range ends whole pages before the offset. -/
theorem firstRange_spec (hoffset : Counts offset) (limit : Int64) :
    (firstRange offset limit).start.toInt = 0 ∧
      (firstRange offset limit).size.toInt =
        if offset.toInt % limit.toInt = 0 then limit.toInt else offset.toInt % limit.toInt := by
  -- Neither word is negative, so the remainder is that of numbers.
  have hrest : (offset % limit).toInt = offset.toInt % limit.toInt := by
    rw [Int64.toInt_mod, Int.tmod_eq_emod_of_nonneg hoffset.nonneg]
  refine ⟨Int64.toInt_zero, ?_⟩
  simp only [firstRange, apply_ite Int64.toInt, ← Int64.toInt_inj, hrest, Int64.toInt_zero]

/-- How many items there are behind the one at an offset. -/
theorem toInt_itemsBehind (hoffset : Counts offset) (hcount : Counts count)
    (hinside : offset.toInt < count.toInt) :
    (count - offset - 1).toInt = count.toInt - offset.toInt - 1 ∧ Counts (count - offset - 1) := by
  -- There is an item at the offset, so one can be taken from what is left there.
  have hrest : (count - offset).toInt = count.toInt - offset.toInt := hcount.toInt_sub hoffset
  have hone : Counts 1 ∧ Int64.toInt 1 = 1 := ⟨⟨by decide, by decide⟩, rfl⟩
  have hcounts : Counts (count - offset) := hcount.sub hoffset hinside.le
  refine ⟨?_, hcounts.sub hone.1 (by omega)⟩
  rw [hcounts.toInt_sub hone.1, hrest, hone.2]

/-- Whole pages are added to an offset in the list, and the list is not left. -/
theorem toInt_startLast (hoffset : Counts offset) (hcount : Counts count) (hpos : 0 < limit.toInt)
    (hinside : offset.toInt < count.toInt) :
    (offset + (count - offset - 1) / limit * limit).toInt =
        offset.toInt + (count.toInt - offset.toInt - 1) / limit.toInt * limit.toInt ∧
      0 ≤ (count.toInt - offset.toInt - 1) / limit.toInt * limit.toInt := by
  obtain ⟨hdiff, hgap⟩ := toInt_itemsBehind hoffset hcount hinside
  have hsmall := hgap.small
  obtain ⟨hwhole, hforth, hback⟩ := toInt_wholePages hgap hpos
  rw [← hdiff]
  refine ⟨?_, hforth⟩
  -- The sum is at most the count.
  rw [← hwhole]
  exact hoffset.toInt_add ⟨by omega, by omega⟩

/-- The last range starts whole pages behind the offset, or before it where the list ends there, and
what of it lies before the list is cut off. -/
theorem lastRange_spec (hoffset : Counts offset) (hlimit : Counts limit) (hcount : Counts count)
    (hpos : 0 < limit.toInt) :
    let start := if offset.toInt < count.toInt
      then offset.toInt + (count.toInt - offset.toInt - 1) / limit.toInt * limit.toInt
      else behind offset.toInt limit.toInt count.toInt
    (lastRange offset limit count).start.toInt = max start 0 ∧
      (lastRange offset limit count).size.toInt = limit.toInt + min start 0 := by
  intro start
  have hstart : (if offset < count then offset + (count - offset - 1) / limit * limit
      else startBehind offset limit count).toInt = start ∧ -2 ^ 62 ≤ start := by
    by_cases hlt : offset.toInt < count.toInt
    · have hnonneg := hoffset.nonneg
      obtain ⟨hlast, hpages⟩ := toInt_startLast hoffset hcount hpos hlt
      simp only [start, if_pos hlt]
      rw [if_pos (Int64.lt_iff_toInt_lt.mpr hlt), hlast]
      exact ⟨rfl, by omega⟩
    · simp only [start, if_neg hlt]
      rw [if_neg (fun h => hlt (Int64.lt_iff_toInt_lt.mp h))]
      exact toInt_startBehind hoffset hlimit hcount hpos (by omega)
  obtain ⟨hvalue, hlower⟩ := hstart
  -- Wherever it starts, it is cut like any other range.
  rw [← hvalue] at hlower ⊢
  exact PageRange.cut_spec hlimit hlower

end PageLinks

/-! ### Links around a page -/

namespace PageRequest

/-- Where a page starts in a list of some length. -/
def startIn (r : PageRequest) (count : Nat) : Nat :=
  min r.start.toNat count

/-- The limit that the links around a page are computed with. -/
def stepIn (r : PageRequest) (count : Nat) : Nat :=
  if count < r.startIn count + r.size.toNat then count else r.size.toNat

/-- The links around a page of a list. -/
def linksIn {α : Type} (r : PageRequest) (l : List α) : PageLinks :=
  let window := Window.of l.length.toUInt64 r.start r.size
  PageLinks.around (window.items l).length.toUInt64 window.offset window.limit l.length.toUInt64

section

variable {α : Type} {l : List α} {page : PageRequest} {r : PageRange}

theorem startIn_le (page : PageRequest) (count : Nat) : page.startIn count ≤ count :=
  Nat.min_le_right _ _

theorem stepIn_pos {count : Nat} (page : PageRequest) (hcount : 0 < count) :
    0 < page.stepIn count := by
  have hsize := page.size_pos
  -- The step is the size of the page, which is positive, or the length of the list.
  rw [stepIn]
  split_ifs <;> omega

/-- The links step by what a page can show, or by the whole list where the page runs over its
end. -/
theorem stepIn_le_or_eq (page : PageRequest) (count : Nat) :
    page.stepIn count ≤ 100 ∨
      page.stepIn count = count ∧ count < page.startIn count + 100 := by
  have hsize := page.size_le
  rw [stepIn]
  split_ifs <;> omega

theorem length_items_of (hlength : l.length < 2 ^ 62) (page : PageRequest) :
    ((Window.of l.length.toUInt64 page.start page.size).items l).length =
      min page.size.toNat (l.length - page.startIn l.length) := by
  have hsize := page.size_le
  rw [Window.items_of hlength (by omega), List.length_take, List.length_drop, startIn]
  omega

/-- The numbers that the links around a page are computed from. -/
theorem linksIn_eq (page : PageRequest) (hlength : l.length < 2 ^ 62) :
    ∃ size offset limit count : Int64,
      page.linksIn l = ⟨PageLinks.firstRange offset limit, PageLinks.rangeBefore offset limit count,
        PageLinks.rangeAfter size offset limit count, PageLinks.lastRange offset limit count⟩ ∧
      (Counts size ∧ size.toInt = min page.size.toNat (l.length - page.startIn l.length)) ∧
      (Counts offset ∧ offset.toInt = page.startIn l.length) ∧
      (Counts limit ∧ limit.toInt = max (page.stepIn l.length) 1) ∧
      Counts count ∧ count.toInt = l.length := by
  have hsize := page.size_le
  have hstart := page.startIn_le l.length
  have hcount : l.length.toUInt64.toNat = l.length := toNat_toUInt64 hlength
  -- All four words are below 2^62, and stand for the numbers given.
  have hword {w : UInt64} {n : Nat} (hw : w.toNat = n) (hn : n < 2 ^ 62) :
      Counts w.toInt64 ∧ w.toInt64.toInt = n :=
    ⟨counts_toInt64 (by omega), by rw [toInt_toInt64 (by omega), hw]⟩
  let window := Window.of l.length.toUInt64 page.start page.size
  -- The window counts as the page does, each word for its number.
  have hoffset : window.offset.toNat = page.startIn l.length := by
    rw [Window.toNat_offset_of, hcount, startIn]
  have hlimit : window.limit.toNat = page.stepIn l.length := by
    rw [Window.toNat_limit_of (by omega) (by omega), hcount, stepIn, startIn]
  have hstep : page.stepIn l.length < 2 ^ 62 := by
    rw [stepIn]
    split_ifs <;> omega
  have hpositive : (if window.limit = 0 then 1 else window.limit).toNat =
      max (page.stepIn l.length) 1 := by
    rw [PageLinks.toNat_step, hlimit]
  have hshown : (window.items l).length.toUInt64.toNat =
      min page.size.toNat (l.length - page.startIn l.length) := by
    rw [length_items_of hlength page]
    exact toNat_toUInt64 (by omega)
  exact ⟨_, _, _, _, rfl, hword hshown (by omega), hword hoffset (by omega),
    hword hpositive (by omega), hword hcount hlength⟩

/-- The link back leads to where the page starts. -/
theorem prev_linksIn (hlength : l.length < 2 ^ 62) :
    (page.linksIn l).prev = some r ↔ 0 < page.startIn l.length ∧
      r.start.toInt = (page.startIn l.length - page.stepIn l.length : Nat) ∧
      r.size.toInt = min (page.stepIn l.length) (page.startIn l.length) := by
  obtain ⟨size, offset, limit, count, hlinks, -, ⟨hoffset, hstart⟩, ⟨hlimit, hstep⟩, hcount,
    hcounted⟩ := linksIn_eq page hlength
  have hle := page.startIn_le l.length
  -- The step is at least one, and the page starts no later than the end of the list.
  have hpos : 0 < limit.toInt := by omega
  rw [hlinks, PageLinks.rangeBefore_eq_some hoffset hlimit hcount hpos, hstart, hcounted, hstep]
  dsimp only
  rw [if_pos (by omega)]
  have hstepPos : 0 < l.length → 0 < page.stepIn l.length := page.stepIn_pos
  constructor
  · rintro ⟨hbehind, hsome, hr⟩
    omega
  · rintro ⟨hbehind, hr⟩
    omega

theorem prev_linksIn_eq_none (hlength : l.length < 2 ^ 62) :
    (page.linksIn l).prev = none ↔ page.startIn l.length = 0 := by
  obtain ⟨size, offset, limit, count, hlinks, -, ⟨-, hstart⟩, -, -, hcounted⟩ :=
    linksIn_eq page hlength
  have hle := page.startIn_le l.length
  rw [hlinks]
  simp only [PageLinks.rangeBefore, Int64.lt_iff_toInt_lt, Int64.toInt_zero, hstart, hcounted,
    ite_eq_right_iff, reduceCtorEq, imp_false]
  omega

/-- The link forth leads on from where the page ends. -/
theorem next_linksIn (hlength : l.length < 2 ^ 62) :
    (page.linksIn l).next = some r ↔ page.startIn l.length + page.size.toNat < l.length ∧
      r.start.toInt = page.startIn l.length + page.size.toNat ∧ r.size.toInt = page.size.toNat := by
  obtain ⟨size, offset, limit, count, hlinks, ⟨hsize, hshown⟩, ⟨hoffset, hstart⟩, ⟨-, hstep⟩, -,
    hcounted⟩ := linksIn_eq page hlength
  have hpos := page.size_pos
  -- What is shown is the size of the page, unless the end of the list comes first.
  rw [hlinks, PageLinks.rangeAfter_eq_some hsize hoffset, ← Int64.toInt_inj, hstart, hcounted,
    hshown, hstep, stepIn]
  -- Where the page runs over the end there is no link, so the step is the size of the page.
  split_ifs with hover <;> omega

theorem next_linksIn_eq_none (hlength : l.length < 2 ^ 62) :
    (page.linksIn l).next = none ↔ l.length ≤ page.startIn l.length + page.size.toNat := by
  obtain ⟨size, offset, limit, count, hlinks, ⟨hsize, hshown⟩, ⟨hoffset, hstart⟩, -, -, hcounted⟩ :=
    linksIn_eq page hlength
  have hle := page.startIn_le l.length
  rw [hlinks]
  simp only [PageLinks.rangeAfter, Int64.lt_iff_toInt_lt, hoffset.toInt_add hsize, hstart,
    hcounted, hshown, ite_eq_right_iff, reduceCtorEq, imp_false]
  omega

theorem first_linksIn (page : PageRequest) (hlength : l.length < 2 ^ 62) :
    let step := max (page.stepIn l.length) 1
    (page.linksIn l).first.start.toInt = 0 ∧
      (page.linksIn l).first.size.toInt =
        if page.startIn l.length % step = 0 then step else page.startIn l.length % step := by
  intro step
  obtain ⟨size, offset, limit, count, hlinks, -, ⟨hoffset, hstart⟩, ⟨-, hstep⟩, -⟩ :=
    linksIn_eq page hlength
  obtain ⟨hfirst, hsize⟩ := PageLinks.firstRange_spec hoffset limit
  rw [hlinks]
  refine ⟨hfirst, hsize.trans ?_⟩
  -- The remainder of words is the remainder of the numbers.
  rw [hstart, hstep, ← Int.natCast_emod, Nat.cast_ite]
  simp only [Int.natCast_eq_zero, step]

theorem last_linksIn (page : PageRequest) (hlength : l.length < 2 ^ 62) (hne : l ≠ []) :
    let start := page.startIn l.length
    let step := page.stepIn l.length
    (page.linksIn l).last.start.toInt =
        (if start < l.length then start + (l.length - start - 1) / step * step else 0 : Nat) ∧
      (page.linksIn l).last.size.toInt = step := by
  intro start step
  obtain ⟨size, offset, limit, count, hlinks, -, ⟨hoffset, hstart⟩, ⟨hlimit, hstep⟩, hcount,
    hcounted⟩ := linksIn_eq page hlength
  -- The list has an item, so the step is positive and is not replaced by one.
  have hstepPos := page.stepIn_pos (List.length_pos_iff.mpr hne)
  rw [Nat.max_eq_left hstepPos] at hstep
  obtain ⟨hlast, hsize⟩ := PageLinks.lastRange_spec hoffset hlimit hcount (by omega)
  rw [hlinks]
  dsimp only
  rw [hlast, hsize, hstart, hcounted, hstep]
  by_cases hinside : start < l.length
  · -- Whole pages behind the start, and so nothing is cut off.
    have hgap : ((l.length - start - 1 : Nat) : Int) = (l.length : Int) - start - 1 := by omega
    have hpages : ((start + (l.length - start - 1) / step * step : Nat) : Int) =
        start + ((l.length : Int) - start - 1) / step * step := by
      rw [Nat.cast_add, Nat.cast_mul, Int.natCast_ediv, hgap]
    rw [if_pos hinside, if_pos (Int.ofNat_lt.mpr hinside), ← hpages]
    exact ⟨max_eq_left (Int.natCast_nonneg _),
      by rw [min_eq_right (Int.natCast_nonneg _), add_zero]⟩
  · -- The page is at the end, and the step is the length of the list.
    have hsizePos := page.size_pos
    have hend : page.startIn l.length = l.length := by
      have hle := page.startIn_le l.length
      omega
    have hwhole : page.stepIn l.length = l.length := by
      rw [stepIn, if_pos (by omega)]
    have hbehind : PageLinks.behind l.length l.length l.length = 0 := by
      rw [PageLinks.behind, sub_self, Int.zero_ediv, zero_add, one_mul, sub_self]
    rw [if_neg hinside, if_neg (by omega), hend, hwhole, hbehind]
    omega

/-- The last range is cut at the start of the list, and never longer than a page. -/
theorem size_last_linksIn_le (page : PageRequest) (hlength : l.length < 2 ^ 62) :
    (page.linksIn l).last.size.toInt ≤ max (page.stepIn l.length) 1 := by
  obtain ⟨size, offset, limit, count, hlinks, -, ⟨hoffset, -⟩, ⟨hlimit, hstep⟩, hcount, -⟩ :=
    linksIn_eq page hlength
  -- The size is the limit, less what lies before the list.
  obtain ⟨-, hsize⟩ := PageLinks.lastRange_spec hoffset hlimit hcount (by omega)
  rw [hlinks]
  dsimp only
  omega

end

end PageRequest

end Roster
