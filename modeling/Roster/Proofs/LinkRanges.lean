import Mathlib.Data.Int.ModEq
import Roster.Proofs.LinkText
import Roster.Proofs.Overflow

/-!
# Where the links around any page lead

The links around a page can be asked for with any four numbers: an offset behind the list, or one
that is no multiple of the limit, or a page that is longer than the limit. Below `2 ^ 62` no
operation on the way overflows, and the ranges have this in common, apart from the one behind the
page: from the end of a range to the offset there are whole pages, and a range is a whole page
unless the start of the list cuts it (`PageRange.Meets`). Cutting moves no end, which is why this
survives it (`PageRange.meets_of_cut`).

`PageLinks.around_leads` puts together what is said of each range, and that the links name these
ranges once they are printed (`PageLinks.PrintedAt`).
-/

namespace Roster

/-! ### Ranges that meet an offset -/

namespace PageRange

/-- The position behind a range. -/
def stop (r : PageRange) : Int :=
  r.start.toInt + r.size.toInt

/-- A range that pages of some length lead to from an offset, or from it to the offset. -/
structure Meets (step offset : Int) (r : PageRange) : Prop where
  /-- It is no longer than a page. -/
  size_le : r.size.toInt ≤ step
  /-- It is a whole page unless the start of the list cuts it. -/
  whole_or_cut : r.size.toInt = step ∨ r.start.toInt = 0
  /-- Between its end and the offset there are whole pages. -/
  stop_modEq : r.stop ≡ offset [ZMOD step]

variable {r : PageRange} {start step offset : Int}

/-- A range that is cut ends where it did. -/
theorem stop_of_cut (hstart : r.start.toInt = max start 0)
    (hsize : r.size.toInt = step + min start 0) : r.stop = start + step := by
  rw [stop, hstart, hsize]
  omega

theorem meets_of_cut (hstart : r.start.toInt = max start 0)
    (hsize : r.size.toInt = step + min start 0) (hmod : start + step ≡ offset [ZMOD step]) :
    r.Meets step offset where
  size_le := by omega
  whole_or_cut := by omega
  -- What is cut off at the start is missing from the size, so the end is where it would be anyhow.
  stop_modEq := by rwa [stop_of_cut hstart hsize]

end PageRange

namespace PageLinks

/-! ### One range after another -/

section

variable {size offset limit count : Int64} {r : PageRange}

/-- From an offset behind the list, whole pages lead back to the end of the range that touches
it. -/
theorem behind_modEq (offset limit count : Int) :
    behind offset limit count + limit ≡ offset [ZMOD limit] := by
  -- From the offset back to that end there are exactly the whole pages of the gap.
  have hpages : behind offset limit count + limit = offset - (offset - count) / limit * limit := by
    rw [behind, Int.add_mul, Int.one_mul]
    omega
  rw [hpages]
  exact (Int.modEq_iff_dvd.mpr (by simp)).symm

/-- That range starts before the end of the list, and ends at it or behind. -/
theorem behind_touches {offset limit count : Int} (hpos : 0 < limit) :
    behind offset limit count < count ∧ count ≤ behind offset limit count + limit := by
  -- The quotient is rounded down, so the gap is less than one page more than the whole ones.
  have hbeyond : offset - count < ((offset - count) / limit + 1) * limit :=
    Int.lt_ediv_add_one_mul_self _ hpos
  have hwhole : (offset - count) / limit * limit ≤ offset - count := Int.ediv_mul_le _ hpos.ne'
  rw [Int.add_mul, Int.one_mul] at hbeyond
  rw [behind, Int.add_mul, Int.one_mul]
  omega

/-- The first range meets the offset from the start of the list. -/
theorem firstRange_meets (hoffset : Counts offset) (hpos : 0 < limit.toInt) :
    (firstRange offset limit).Meets limit.toInt offset.toInt ∧
      (firstRange offset limit).start.toInt = 0 ∧ 1 ≤ (firstRange offset limit).size.toInt := by
  obtain ⟨hstart, hsize⟩ := firstRange_spec hoffset limit
  have hrest : 0 ≤ offset.toInt % limit.toInt := Int.emod_nonneg _ hpos.ne'
  have hless : offset.toInt % limit.toInt < limit.toInt := Int.emod_lt_of_pos _ hpos
  -- It starts at zero, so its size is its end.
  have hstop : (firstRange offset limit).stop = (firstRange offset limit).size.toInt := by
    rw [PageRange.stop, hstart, zero_add]
  refine ⟨⟨?_, .inr hstart, ?_⟩, hstart, ?_⟩
  · rw [hsize]
    split_ifs <;> omega
  · -- Its end is what is left of the offset by the step, or a whole step where nothing is.
    rw [hstop, hsize]
    split_ifs with hnone
    · -- No rest is as good as a whole page.
      show limit.toInt % limit.toInt = offset.toInt % limit.toInt
      rw [Int.emod_self, hnone]
    · exact Int.mod_modEq _ _
  · rw [hsize]
    split_ifs <;> omega

/-- Where the last range starts before anything is cut. -/
def startLast (offset limit count : Int) : Int :=
  if offset < count then offset + (count - offset - 1) / limit * limit
  else behind offset limit count

/-- It is whole pages from the offset, and the page from there has the last item. -/
theorem startLast_spec (offset count : Int) {limit : Int} (hpos : 0 < limit) :
    startLast offset limit count + limit ≡ offset [ZMOD limit] ∧
      startLast offset limit count < count ∧ count ≤ startLast offset limit count + limit := by
  rw [startLast]
  split_ifs with hinside
  · have hwhole := Int.ediv_mul_le (count - offset - 1) hpos.ne'
    have hbeyond := Int.lt_ediv_add_one_mul_self (count - offset - 1) hpos
    rw [Int.add_mul, Int.one_mul] at hbeyond
    -- The gap is less than one page more than whole pages, so the page from there reaches the end.
    refine ⟨?_, by omega, by omega⟩
    rw [add_assoc]
    exact (Int.modEq_iff_dvd.mpr (by simp)).symm
  · exact ⟨behind_modEq _ _ _, behind_touches hpos⟩

/-- The last range meets the offset, and has the last item. -/
theorem lastRange_meets (hoffset : Counts offset) (hlimit : Counts limit) (hcount : Counts count)
    (hpos : 0 < limit.toInt) :
    (lastRange offset limit count).Meets limit.toInt offset.toInt ∧
      0 ≤ (lastRange offset limit count).start.toInt ∧
      (0 < count.toInt → (lastRange offset limit count).start.toInt < count.toInt ∧
        count.toInt ≤ (lastRange offset limit count).stop) := by
  obtain ⟨hstart, hsize⟩ := lastRange_spec hoffset hlimit hcount hpos
  obtain ⟨hmod, hbefore, hreach⟩ := startLast_spec offset.toInt count.toInt hpos
  rw [← startLast] at hstart hsize
  have hstop := PageRange.stop_of_cut hstart hsize
  exact ⟨PageRange.meets_of_cut hstart hsize hmod, by omega, fun hsome => by omega⟩

theorem isSome_rangeBefore :
    (rangeBefore offset limit count).isSome ↔ 0 < offset.toInt ∧ 0 < count.toInt := by
  rw [rangeBefore, Option.isSome_ite, Int64.lt_iff_toInt_lt, Int64.lt_iff_toInt_lt,
    Int64.toInt_zero]

theorem isSome_rangeAfter (hsize : Counts size) (hoffset : Counts offset) :
    (rangeAfter size offset limit count).isSome ↔ offset.toInt + size.toInt < count.toInt := by
  rw [rangeAfter, Option.isSome_ite, Int64.lt_iff_toInt_lt, hoffset.toInt_add hsize]

/-- The range before a page ends at the offset, and is the last one if the offset is behind the
list. -/
theorem rangeBefore_meets (hoffset : Counts offset) (hlimit : Counts limit) (hcount : Counts count)
    (hpos : 0 < limit.toInt) (h : rangeBefore offset limit count = some r) :
    r.Meets limit.toInt offset.toInt ∧ 0 ≤ r.start.toInt ∧ 1 ≤ r.size.toInt ∧
      (offset.toInt ≤ count.toInt → r.stop = offset.toInt) ∧
      (count.toInt < offset.toInt → r = lastRange offset limit count) := by
  obtain ⟨hbehind, hsome, hstart, hsize⟩ :=
    (rangeBefore_eq_some hoffset hlimit hcount hpos).mp h
  rcases lt_or_ge count.toInt offset.toInt with hover | hinside
  · -- Behind the list both ranges are computed in the same way.
    obtain ⟨hlastStart, hlastSize⟩ := lastRange_spec hoffset hlimit hcount hpos
    rw [if_neg (by omega)] at hstart hsize
    rw [if_neg (by omega)] at hlastStart hlastSize
    have hlast : r = lastRange offset limit count :=
      PageRange.eq_iff_toInt.mpr ⟨hstart.trans hlastStart.symm, hsize.trans hlastSize.symm⟩
    obtain ⟨hmeets, hnonneg, hspan⟩ := lastRange_meets hoffset hlimit hcount hpos
    rw [← hlast, PageRange.stop] at hspan
    rw [← hlast] at hmeets hnonneg
    have hspan := hspan hsome
    exact ⟨hmeets, hnonneg, by omega, fun hle => absurd hle (by omega), fun _ => hlast⟩
  · rw [if_pos hinside] at hstart hsize
    -- Inside the list it starts one page before the offset, cut or not, and so ends at it.
    have hstop : r.stop = offset.toInt := by
      rw [PageRange.stop_of_cut hstart hsize]
      omega
    refine ⟨PageRange.meets_of_cut hstart hsize ?_, by omega, by omega, fun _ => hstop,
      fun hover => absurd hover (by omega)⟩
    rw [sub_add_cancel]

end

/-! ### All of them -/

/-- Printed at a path, there is a link for each range, and it is read as that range of the list at
the path. -/
def PrintedAt (path : String) (links : PageLinks) : Prop :=
  ∀ kind, (links.link? path kind).map
      (fun link => ((Http.Target.parse link).path, Http.namedRange? link)) =
    (links.range? kind).map fun r => (path, some (r.start.toInt, r.size.toInt))

theorem printedAt (links : PageLinks) {path : String} (hpath : Http.IsPath path) :
    links.PrintedAt path := by
  intro kind
  -- Either side goes through the range of the kind, and each range is read from its own link.
  rw [link?_eq, Option.map_map]
  refine Option.map_congr fun r _ => ?_
  exact Prod.ext (Http.Target.page?_parse_link hpath r).1 (Http.namedRange?_link hpath r)

/-- What links around `size` items at an offset lead to, in a list of `count` items and with pages
of some length. -/
structure Leads (size offset step count : Int) (links : PageLinks) : Prop where
  /-- No range starts before the list. -/
  nonneg : ∀ kind, ∀ r ∈ links.range? kind, 0 ≤ r.start.toInt
  /-- No range is empty unless the list is. -/
  pos : 0 < count → ∀ kind, ∀ r ∈ links.range? kind, 1 ≤ r.size.toInt
  /-- The first range is at the start of the list, and never empty. -/
  first_start : links.first.start.toInt = 0 ∧ 1 ≤ links.first.size.toInt
  /-- It meets the offset. -/
  first_meets : links.first.Meets step offset
  /-- There is a range behind the page if there is an item. -/
  isSome_next : links.next.isSome ↔ offset + size < count
  /-- It starts there, and is a whole page. -/
  next : ∀ r ∈ links.next, r.start.toInt = offset + size ∧ r.size.toInt = step
  /-- There is a range before the page if the page is not at the start, and the list is not empty.
  -/
  isSome_prev : links.prev.isSome ↔ 0 < offset ∧ 0 < count
  /-- It meets the offset. -/
  prev_meets : ∀ r ∈ links.prev, r.Meets step offset
  /-- It ends at the offset, if that is not behind the list. -/
  prev_stop : ∀ r ∈ links.prev, offset ≤ count → r.stop = offset
  /-- It is the last range, if the offset is behind the list. -/
  prev_last : ∀ r ∈ links.prev, count < offset → r = links.last
  /-- The last range meets the offset. -/
  last_meets : links.last.Meets step offset
  /-- It has the last item. -/
  last_spans : 0 < count → links.last.start.toInt ≤ count - 1 ∧ count - 1 < links.last.stop

/-- The words that the links are computed from stand for the plain numbers. -/
theorem leads_of_counts {size offset limit count : Int64} (hsize : Counts size)
    (hoffset : Counts offset) (hlimit : Counts limit) (hcount : Counts count)
    (hpos : 0 < limit.toInt) :
    Leads size.toInt offset.toInt limit.toInt count.toInt
      ⟨firstRange offset limit, rangeBefore offset limit count, rangeAfter size offset limit count,
        lastRange offset limit count⟩ := by
  obtain ⟨hfirst, hfirstStart, hfirstPos⟩ := firstRange_meets hoffset hpos
  obtain ⟨hlast, hlastNonneg, hspan⟩ := lastRange_meets hoffset hlimit hcount hpos
  have hprev (r : PageRange) (hr : rangeBefore offset limit count = some r) :=
    rangeBefore_meets hoffset hlimit hcount hpos hr
  have hnext (r : PageRange) (hr : rangeAfter size offset limit count = some r) :=
    ((rangeAfter_eq_some hsize hoffset).mp hr).2
  have hoffsetNonneg := hoffset.nonneg
  have hsizeNonneg := hsize.nonneg
  -- The facts about each of the four ranges are taken from above; what is left is to hand them out.
  constructor
  case nonneg =>
    intro kind r hr
    cases kind with
    | first =>
      obtain rfl := Option.some.inj hr
      exact hfirstStart.ge
    | prev => exact (hprev r hr).2.1
    | next =>
      -- It starts behind the page, and the page is not before the list.
      have hstart := (hnext r hr).1
      omega
    | last =>
      obtain rfl := Option.some.inj hr
      exact hlastNonneg
  case pos =>
    intro hsome kind r hr
    cases kind with
    | first =>
      obtain rfl := Option.some.inj hr
      exact hfirstPos
    | prev => exact (hprev r hr).2.2.1
    | next =>
      -- It is a whole page, and no page is empty.
      rw [(hnext r hr).2]
      omega
    | last =>
      -- It starts before the end of the list and reaches it.
      obtain rfl := Option.some.inj hr
      obtain ⟨hbefore, hreach⟩ := hspan hsome
      rw [PageRange.stop] at hreach
      dsimp only
      omega
  case first_start => exact ⟨hfirstStart, hfirstPos⟩
  case first_meets => exact hfirst
  case isSome_next => exact isSome_rangeAfter hsize hoffset
  case next => exact fun r hr => ⟨(hnext r hr).1, congrArg Int64.toInt (hnext r hr).2⟩
  case isSome_prev => exact isSome_rangeBefore
  case prev_meets => exact fun r hr => (hprev r hr).1
  case prev_stop => exact fun r hr => (hprev r hr).2.2.2.1
  case prev_last => exact fun r hr => (hprev r hr).2.2.2.2
  case last_meets => exact hlast
  case last_spans =>
    intro hsome
    obtain ⟨hbefore, hreach⟩ := hspan hsome
    exact ⟨Int.le_sub_one_of_lt hbefore, Int.sub_one_lt_of_le hreach⟩

/-- **Where links lead.** Below `2 ^ 62`, no operation on the way to the links overflows, and they
lead to the ranges that `Leads` lists. A limit of zero counts as one. Printed at any path, the links
name these ranges. -/
theorem around_leads {size offset limit count : UInt64} (hsize : size.toNat < 2 ^ 62)
    (hoffset : offset.toNat < 2 ^ 62) (hlimit : limit.toNat < 2 ^ 62)
    (hcount : count.toNat < 2 ^ 62) :
    let links := around size offset limit count
    checkedAround size offset limit count = some links ∧
      links.Leads size.toNat offset.toNat (max limit.toNat 1 : Nat) count.toNat ∧
      ∀ path, Http.IsPath path → links.PrintedAt path := by
  refine ⟨checkedAround_eq hsize hoffset hlimit hcount, ?_, fun path hpath => printedAt _ hpath⟩
  -- The words stand for these numbers, and a limit of zero is replaced by one.
  have hstep := toNat_step limit
  have hlimits := counts_toInt64 (show (if limit = 0 then 1 else limit).toNat < 2 ^ 62 by omega)
  have hlimitInt := toInt_toInt64 (show (if limit = 0 then 1 else limit).toNat < 2 ^ 62 by omega)
  rw [hstep] at hlimitInt
  have hsizes := counts_toInt64 hsize
  have hoffsets := counts_toInt64 hoffset
  have hcounts := counts_toInt64 hcount
  rw [around, ← toInt_toInt64 hsize, ← toInt_toInt64 hoffset, ← toInt_toInt64 hcount, ← hlimitInt]
  exact leads_of_counts hsizes hoffsets hlimits hcounts (by omega)

/-- Behind the end of the list, between two multiples of the limit. -/
theorem past_the_end_leads :
    let links := around 0 9 4 6
    checkedAround 0 9 4 6 = some links ∧ links.Leads 0 9 4 6 ∧
      links = ⟨⟨0, 1⟩, some ⟨5, 4⟩, none, ⟨5, 4⟩⟩ ∧ Http.IsPath "/members" ∧
      links.link? "/members" .prev = some "/members?page[offset]=5&page[limit]=4" ∧
      Http.namedRange? "/members?page[offset]=5&page[limit]=4" = some (5, 4) := by
  intro links
  -- The offset is three items behind the list, and neither it nor the list is a whole number of
  -- pages.
  obtain ⟨hchecked, hleads, hprinted⟩ :=
    @around_leads 0 9 4 6 (by decide) (by decide) (by decide) (by decide)
  have hpath : Http.IsPath "/members" := ⟨by decide, by decide, by decide⟩
  have hlink : links.link? "/members" .prev = some "/members?page[offset]=5&page[limit]=4" := by
    decide +kernel
  have hnamed := hprinted "/members" hpath .prev
  rw [hlink] at hnamed
  exact ⟨hchecked, hleads, by decide, hpath, hlink, congrArg Prod.snd (Option.some.inj hnamed)⟩

end PageLinks

end Roster
