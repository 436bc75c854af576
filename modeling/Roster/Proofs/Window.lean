import Mathlib.Algebra.Order.Ring.Int
import Mathlib.Tactic.SplitIfs
import Roster.Paging
import Roster.Proofs.MemberList

/-!
# Pages in plain numbers

Positions are words, and as long as lists are shorter than `2 ^ 62` no sum, difference or product
that pages need leaves the words. So a page shows as many items as were asked for, from where it was
asked for (`Window.items_of`).

A link is followed by a request for its range (`PageRange.request`). Its numbers are read back as
they were written, except that no request gets more than the greatest limit.
-/

namespace Roster

open Text

/-! ### Words -/

/-- A word that counts items of a list: sums and differences of two such words are words. -/
structure Counts (w : Int64) : Prop where
  /-- It is not negative. -/
  nonneg : 0 ≤ w.toInt
  /-- It is small. -/
  small : w.toInt < 2 ^ 62

theorem bmod_of_word {i : Int} (hlower : -2 ^ 63 ≤ i) (hupper : i < 2 ^ 63) :
    i.bmod (2 ^ 64) = i := by
  apply Int.bmod_eq_of_le <;> omega

namespace Counts

variable {v w : Int64}

theorem toInt_add (hv : Counts v) (hw : Counts w) : (v + w).toInt = v.toInt + w.toInt := by
  obtain ⟨hvNonneg, hvSmall⟩ := hv
  obtain ⟨hwNonneg, hwSmall⟩ := hw
  -- The sum is below 2^63, so the word holds it.
  rw [Int64.toInt_add, bmod_of_word (by omega) (by omega)]

theorem toInt_sub (hv : Counts v) (hw : Counts w) : (v - w).toInt = v.toInt - w.toInt := by
  obtain ⟨hvNonneg, hvSmall⟩ := hv
  obtain ⟨hwNonneg, hwSmall⟩ := hw
  rw [Int64.toInt_sub, bmod_of_word (by omega) (by omega)]

/-- What is left of a word when a smaller one is taken away counts items as well. -/
theorem sub (hv : Counts v) (hw : Counts w) (hle : w.toInt ≤ v.toInt) : Counts (v - w) := by
  have hdiff := hv.toInt_sub hw
  have hsmall := hv.small
  have hnonneg := hw.nonneg
  constructor <;> omega

end Counts

theorem toInt_toInt64 {w : UInt64} (h : w.toNat < 2 ^ 62) : w.toInt64.toInt = w.toNat := by
  have hword : w.toInt64.toInt = w.toBitVec.toInt := rfl
  have hnat : w.toBitVec.toNat = w.toNat := rfl
  -- A word below 2^63 is the same number with and without a sign.
  rw [hword, BitVec.toInt_eq_toNat_of_lt (by omega), hnat]

theorem counts_toInt64 {w : UInt64} (h : w.toNat < 2 ^ 62) : Counts w.toInt64 := by
  constructor <;> rw [toInt_toInt64 h] <;> omega

theorem toNat_toUInt64 {n : Nat} (h : n < 2 ^ 62) : n.toUInt64.toNat = n := by
  rw [Nat.toUInt64_eq]
  exact UInt64.toNat_ofNat_of_lt' (by rw [UInt64.size]; omega)

/-! ### Windows -/

namespace Window

variable {length offset limit : UInt64}

theorem toNat_offset_of :
    (of length offset limit).offset.toNat = min offset.toNat length.toNat := by
  simp only [of, UInt64.le_iff_toNat_le]
  split <;> omega

/-- The limit is the one that is asked for, or the length of the list where that runs over its
end. -/
theorem toNat_limit_of (hlength : length.toNat < 2 ^ 62) (hlimit : limit.toNat < 2 ^ 62) :
    (of length offset limit).limit.toNat =
      if length.toNat < min offset.toNat length.toNat + limit.toNat then length.toNat
      else limit.toNat := by
  -- Without overflow in the sum, the comparison of words is one of numbers.
  simp only [of, UInt64.lt_iff_toNat_lt, UInt64.le_iff_toNat_le, UInt64.toNat_add]
  split_ifs <;> omega

theorem toNat_stop_of (hlength : length.toNat < 2 ^ 62) (hlimit : limit.toNat < 2 ^ 62) :
    (of length offset limit).stop.toNat =
      min (min offset.toNat length.toNat + limit.toNat) length.toNat := by
  simp only [of, UInt64.lt_iff_toNat_lt, UInt64.le_iff_toNat_le]
  split_ifs <;> simp only [UInt64.toNat_add] at * <;> omega

/-- A page shows as many items as are asked for, from the offset on. -/
theorem items_of {α : Type} {l : List α} (hlength : l.length < 2 ^ 62)
    (hlimit : limit.toNat < 2 ^ 62) :
    (of l.length.toUInt64 offset limit).items l = (l.drop offset.toNat).take limit.toNat := by
  have hcount : l.length.toUInt64.toNat = l.length := toNat_toUInt64 hlength
  -- In numbers, the window is a part of the list by offset and count, cut at the end of the list.
  rw [items, toNat_offset_of, toNat_stop_of (by omega) hlimit, hcount, List.drop_take]
  rcases Nat.le_total l.length offset.toNat with hend | hinside
  · -- Behind the end of the list both sides are empty.
    rw [Nat.min_eq_right hend, List.drop_length, List.drop_eq_nil_of_le hend, List.take_nil,
      List.take_nil]
  · -- Inside the list both sides count the same items, as no more than the rest can be taken.
    rw [Nat.min_eq_left hinside, List.take_eq_take_iff, List.length_drop]
    omega

end Window

/-! ### Requests -/

theorem PageRequest.toNat_greatestLimit : greatestLimit.toNat = 100 := rfl

theorem PageRequest.size_pos (r : PageRequest) : 0 < r.size.toNat := by
  rw [size]
  split
  · rename_i l _
    -- A limit that was given is kept if it is small enough, and no limit is ever zero.
    split_ifs with hnone hsmall
    · decide
    · have hgreatest := toNat_greatestLimit
      rw [toNat_toUInt64 (by omega)]
      omega
    · decide
  · decide

theorem PageRequest.size_le (r : PageRequest) : r.size.toNat ≤ 100 := by
  have hgreatest := toNat_greatestLimit
  have hdefault : defaultLimit.toNat = 20 := rfl
  rw [size]
  split
  · split_ifs with hnone hsmall
    · omega
    · rw [toNat_toUInt64 (by omega)]
      omega
    · omega
  · omega

/-- The request for a range, as its link writes it. -/
def PageRange.request (r : PageRange) : PageRequest :=
  ⟨some (String.ofList (ofInt r.start.toInt)), some r.size.toInt⟩

theorem isBlank_of_isDigit {c : Char} (h : c.isDigit = true) : isBlank c = false := by
  simp only [Char.isDigit, Bool.and_eq_true, decide_eq_true_eq, UInt32.le_iff_toNat_le,
    ge_iff_le] at h
  have hlower : 48 ≤ c.toNat := h.1
  have hupper : c.toNat ≤ 57 := h.2
  simp only [isBlank, Bool.or_eq_false_iff, Bool.and_eq_false_iff, decide_eq_false_iff_not,
    beq_eq_false_iff_ne]
  omega

theorem trim_ofNat (n : Nat) : trim (ofNat n) = ofNat n := by
  have hnone : ∀ c ∈ ([] : List Char), isBlank c = true := by simp
  have hkept : ∀ c ∈ ofNat n, isBlank c = false := fun c hc =>
    isBlank_of_isDigit (isDigit_of_mem_ofNat hc)
  -- A numeral has no blanks to trim, and at least one digit to stop at.
  have htrim := MemberList.trimBoth_surround hnone hnone hkept (Nat.toDigits_ne_nil)
  rwa [List.nil_append, List.append_nil] at htrim

namespace PageRange

variable {r : PageRange}

theorem start_request {n : Nat} (h : r.start.toInt = n) (hn : n < 2 ^ 62) :
    r.request.start.toNat = n := by
  -- A count is small enough to be read as a word.
  have hword : isWord (n : Int) = true := by
    rw [isWord, Bool.and_eq_true, decide_eq_true_eq, decide_eq_true_eq]
    omega
  -- The numeral of the start is read back as it was written.
  have hread : readWord? (trim (String.ofList (ofInt r.start.toInt)).toList) = some (n : Int) := by
    rw [h, String.toList_ofList]
    exact (congrArg readWord? (trim_ofNat n)).trans (readWord?_ofInt hword)
  simp only [request, PageRequest.start, Option.bind_some, hread, Option.getD_some]
  rw [toNat_toUInt64 (by omega)]
  rfl

/-- A request for a range asks for all of it, but for no more than the greatest limit. -/
theorem size_request {n : Nat} (h : r.size.toInt = n) (hpos : 0 < n) :
    r.request.size.toNat = min n 100 := by
  have hgreatest := PageRequest.toNat_greatestLimit
  simp only [request, PageRequest.size]
  -- A range has at least one item, so its limit is taken over unless it is too great.
  split_ifs
  · omega
  · rw [toNat_toUInt64 (by omega)]
    omega
  · omega

end PageRange

end Roster
