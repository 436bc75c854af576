import Roster.Proofs.Spelling
import Roster.Text.Base64

/-!
# Writing base 64

The text that bytes have in the alphabet for addresses: each three bytes are four letters, and what
is left behind them are as many letters as it takes, with zeros for the bits that are missing. It is
the only text that the bytes are read from (`ofAddress?_eq_some`).
-/

namespace Roster.Text.Base64

/-- The letter of six bits in the alphabet for addresses. -/
def letter (n : Nat) : Char :=
  if n < 26 then Char.ofNat (0x41 + n)
  else if n < 52 then Char.ofNat (0x61 + (n - 26))
  else if n < 62 then Char.ofNat (0x30 + (n - 52))
  else if n = 62 then '-'
  else '_'

/-- Bytes as numbers of six bits. -/
def sextets : Bytes → List Nat
  | a :: b :: c :: rest =>
    a.toNat / 4 :: (a.toNat % 4 * 16 + b.toNat / 16) :: (b.toNat % 16 * 4 + c.toNat / 64) ::
      c.toNat % 64 :: sextets rest
  | [a, b] => [a.toNat / 4, a.toNat % 4 * 16 + b.toNat / 16, b.toNat % 16 * 4]
  | [a] => [a.toNat / 4, a.toNat % 4 * 16]
  | [] => []

/-- The text of bytes in the alphabet for addresses. -/
def address (bytes : Bytes) : List Char :=
  (sextets bytes).map letter

/-! ### Letters -/

/-- A character of a range, counted from its first one. -/
theorem eq_ofNat_of_range {c first last : Char} (h : first ≤ c ∧ c ≤ last) :
    c = Char.ofNat (first.toNat + (c.toNat - first.toNat)) ∧ c.toNat ≤ last.toNat := by
  have hlower : first.toNat ≤ c.toNat := h.1
  refine ⟨?_, h.2⟩
  rw [Nat.add_sub_cancel' hlower, Char.ofNat_toNat]

theorem addressValue?_eq_some {c : Char} {n : Nat} :
    addressValue? c = some n ↔ n < 64 ∧ c = letter n := by
  constructor
  · intro h
    rw [addressValue?, value?] at h
    -- The reader looks at the two signs first, and at the three ranges then.
    split_ifs at h with hminus hline hupper hlower hdigit
    · cases h
      exact ⟨by omega, hminus⟩
    · cases h
      exact ⟨by omega, hline⟩
    · obtain ⟨hc, hlast⟩ := eq_ofNat_of_range hupper
      have hbounds : 'A'.toNat = 0x41 ∧ 'Z'.toNat = 0x5A := ⟨rfl, rfl⟩
      obtain rfl := Option.some.inj h
      refine ⟨by omega, ?_⟩
      rw [letter, if_pos (by omega)]
      exact hc
    · obtain ⟨hc, hlast⟩ := eq_ofNat_of_range hlower
      have hbounds : 'a'.toNat = 0x61 ∧ 'z'.toNat = 0x7A := ⟨rfl, rfl⟩
      obtain rfl := Option.some.inj h
      refine ⟨by omega, ?_⟩
      rw [letter, if_neg (by omega), if_pos (by omega), Nat.add_sub_cancel]
      exact hc
    · obtain ⟨hc, hlast⟩ := eq_ofNat_of_range hdigit
      have hbounds : '0'.toNat = 0x30 ∧ '9'.toNat = 0x39 := ⟨rfl, rfl⟩
      obtain rfl := Option.some.inj h
      refine ⟨by omega, ?_⟩
      rw [letter, if_neg (by omega), if_neg (by omega), if_pos (by omega), Nat.add_sub_cancel]
      exact hc
  · -- There are only 64 letters, so each is tried.
    rintro ⟨hn, rfl⟩
    have hall : ∀ n : Fin 64, addressValue? (letter n) = some n.val := by decide +kernel
    exact hall ⟨n, hn⟩

theorem mapM_addressValue? {s : List Char} {ns : List Nat} :
    s.mapM addressValue? = some ns ↔ (∀ n ∈ ns, n < 64) ∧ s = ns.map letter := by
  rw [Uuid.mapM_eq_some]
  induction s generalizing ns with
  | nil => cases ns <;> simp
  | cons c s ih =>
    cases ns with
    | nil => simp
    | cons n ns =>
      -- The first letter and the rest are read independently of each other.
      rw [List.map_cons, List.map_cons, List.map_cons, List.cons.injEq, List.cons.injEq, ih,
        addressValue?_eq_some, List.forall_mem_cons]
      constructor
      · rintro ⟨⟨hn, hc⟩, hns, hs⟩
        exact ⟨⟨hn, hns⟩, hc, hs⟩
      · rintro ⟨⟨hn, hns⟩, hc, hs⟩
        exact ⟨⟨hn, hc⟩, hns, hs⟩

/-! ### Groups of letters -/

theorem lt_of_mem_sextets {bytes : Bytes} {n : Nat} (h : n ∈ sextets bytes) : n < 64 := by
  induction bytes using sextets.induct with
  | case1 a b c rest ih =>
    have ha := a.toNat_lt
    have hb := b.toNat_lt
    have hc := c.toNat_lt
    -- A part of a byte has its own number of bits, and two parts together have six.
    simp only [sextets, List.mem_cons] at h
    rcases h with rfl | rfl | rfl | rfl | h
    · omega
    · omega
    · omega
    · omega
    · exact ih h
  | case2 a b =>
    have ha := a.toNat_lt
    have hb := b.toNat_lt
    simp only [sextets, List.mem_cons, List.not_mem_nil, or_false] at h
    omega
  | case3 a =>
    have ha := a.toNat_lt
    simp only [sextets, List.mem_cons, List.not_mem_nil, or_false] at h
    omega
  | case4 => cases h

/-- A byte is known by its number. -/
theorem ofNat_eq {n : Nat} {b : UInt8} (h : n = b.toNat) : UInt8.ofNat n = b := by
  rw [h, UInt8.ofNat_toNat]

theorem toNat_ofNat {n : Nat} (h : n < 0x100) : (UInt8.ofNat n).toNat = n :=
  UInt8.toNat_ofNat_of_lt' h

/-- What bytes are written as is read again. -/
theorem bytes?_sextets (bytes : Bytes) : bytes? (sextets bytes) = some bytes := by
  induction bytes using sextets.induct with
  | case1 a b c rest ih =>
    -- Two letters next to each other hold the bits of one byte.
    have hb := b.toNat_lt
    have hc := c.toNat_lt
    -- The lower bits in the second number are cut off by rounding down.
    have hfirst : a.toNat / 4 * 4 + (a.toNat % 4 * 16 + b.toNat / 16) / 16 = a.toNat := by omega
    have hsecond : (a.toNat % 4 * 16 + b.toNat / 16) % 16 * 16 +
        (b.toNat % 16 * 4 + c.toNat / 64) / 4 = b.toNat := by omega
    have hthird : (b.toNat % 16 * 4 + c.toNat / 64) % 4 * 64 + c.toNat % 64 = c.toNat := by omega
    rw [sextets, bytes?, ih, ofNat_eq hfirst, ofNat_eq hsecond, ofNat_eq hthird, Option.map_some]
  | case2 a b =>
    have hb := b.toNat_lt
    have hfirst : a.toNat / 4 * 4 + (a.toNat % 4 * 16 + b.toNat / 16) / 16 = a.toNat := by omega
    have hsecond : (a.toNat % 4 * 16 + b.toNat / 16) % 16 * 16 + b.toNat % 16 * 4 / 4 =
        b.toNat := by omega
    rw [sextets, bytes?, if_pos (by omega), ofNat_eq hfirst, ofNat_eq hsecond]
  | case3 a =>
    -- What is behind the last byte is zero bits, which the reader asks for.
    have hfirst : a.toNat / 4 * 4 + a.toNat % 4 * 16 / 16 = a.toNat := by omega
    rw [sextets, bytes?, if_pos (by omega), ofNat_eq hfirst]
  | case4 => rfl

/-- What is read is what it is written as: the bits behind the last byte are zero. -/
theorem sextets_of_bytes? {ns : List Nat} {bytes : Bytes} (hns : ∀ n ∈ ns, n < 64)
    (h : bytes? ns = some bytes) : sextets bytes = ns := by
  induction ns using bytes?.induct generalizing bytes with
  | case1 a b c d rest ih =>
    simp only [List.forall_mem_cons] at hns
    obtain ⟨ha, hb, hc, hd, hrest⟩ := hns
    obtain ⟨others, hothers, rfl⟩ := Option.map_eq_some_iff.mp h
    -- All numbers that become bytes are below 256, since those of the letters are below 64.
    rw [sextets, ih hrest hothers, toNat_ofNat (by omega), toNat_ofNat (by omega),
      toNat_ofNat (by omega)]
    simp only [List.cons.injEq, and_true]
    omega
  | case2 a b c hzero =>
    simp only [List.forall_mem_cons] at hns
    rw [bytes?, if_pos hzero] at h
    obtain rfl := Option.some.inj h
    rw [sextets, toNat_ofNat (by omega), toNat_ofNat (by omega)]
    simp only [List.cons.injEq, and_true]
    omega
  | case3 a b c hrest =>
    -- Bits that are left over and not zero are refused.
    rw [bytes?, if_neg hrest] at h
    cases h
  | case4 a b hzero =>
    simp only [List.forall_mem_cons] at hns
    rw [bytes?, if_pos hzero] at h
    obtain rfl := Option.some.inj h
    rw [sextets, toNat_ofNat (by omega)]
    simp only [List.cons.injEq, and_true]
    omega
  | case5 a b hrest =>
    rw [bytes?, if_neg hrest] at h
    cases h
  | case6 => cases h
  | case7 =>
    obtain rfl := Option.some.inj h
    rfl

/-- The text of bytes is what they are read from, and nothing else is. -/
theorem ofAddress?_eq_some {s : List Char} {bytes : Bytes} :
    ofAddress? s = some bytes ↔ s = address bytes := by
  rw [ofAddress?, Option.bind_eq_some_iff]
  constructor
  · rintro ⟨ns, hns, hbytes⟩
    obtain ⟨hsmall, rfl⟩ := mapM_addressValue?.mp hns
    -- Reading letters and grouping bits are undone one after the other.
    rw [address, sextets_of_bytes? hsmall hbytes]
  · rintro rfl
    have hletters : (address bytes).mapM addressValue? = some (sextets bytes) :=
      mapM_addressValue?.mpr ⟨fun _ => lt_of_mem_sextets, rfl⟩
    exact ⟨sextets bytes, hletters, bytes?_sextets bytes⟩

/-- There is nothing but letters in a text of bytes. -/
theorem notMem_address {c : Char} (hc : addressValue? c = none) (bytes : Bytes) :
    c ∉ address bytes := by
  intro hmem
  obtain ⟨n, hn, hletter⟩ := List.mem_map.mp hmem
  -- A number of six bits has a letter, which is one that is read.
  rw [addressValue?_eq_some.mpr ⟨lt_of_mem_sextets hn, hletter.symm⟩] at hc
  cases hc

end Roster.Text.Base64
