import Mathlib.Data.List.TakeDrop
import Mathlib.Data.List.TakeWhile
import Roster.Proofs.Base64
import Roster.Proofs.Record
import Roster.Token.Compact

/-!
# The parts of a token

A token is a header, claims and a signature with dots between them; the last two dots divide the
parts, so only the header may hold more of them. A part that is read as JSON is bytes in base 64,
and those are a document with nothing behind it.
-/

namespace Roster.Token.Compact

open Json Text

variable {α : Type}

/-- A text is split at its last dot. -/
theorem splitAtLastDot_eq_some {s before behind : List Char} :
    splitAtLastDot s = some (before, behind) ↔ s = before ++ '.' :: behind ∧ '.' ∉ behind := by
  rw [splitAtLastDot, List.span_eq_takeWhile_dropWhile]
  constructor
  · -- The last dot is the first one of the reversed text.
    intro h
    have hwhole := List.takeWhile_append_dropWhile (p := (· ≠ '.')) (l := s.reverse)
    -- What is taken from the back has no dot, and what is left starts with one, if anything is
    -- left.
    have hkept : '.' ∉ s.reverse.takeWhile (· ≠ '.') := fun hmem => by
      have hother := List.mem_takeWhile_imp hmem
      simp at hother
    have hstop := List.head?_dropWhile_not (· ≠ '.') s.reverse
    generalize s.reverse.takeWhile (· ≠ '.') = front at h hwhole hkept
    generalize s.reverse.dropWhile (· ≠ '.') = back at h hwhole hstop
    cases back with
    | nil => cases h
    | cons c rest =>
      obtain rfl : c = '.' := by simpa using hstop
      obtain ⟨rfl, rfl⟩ := Prod.mk.inj (Option.some.inj h)
      refine ⟨?_, fun hmem => hkept (List.mem_reverse.mp hmem)⟩
      -- Reversed again, the front stands behind the dot and the back before it.
      rw [← List.reverse_reverse s, ← hwhole, List.reverse_append, List.reverse_cons,
        List.append_assoc, List.singleton_append]
  · rintro ⟨rfl, hnone⟩
    have hkept : ∀ c ∈ behind.reverse, decide (c ≠ '.') = true := by
      intro c hc
      exact decide_eq_true fun heq => hnone (heq ▸ List.mem_reverse.mp hc)
    -- Reversed, the text starts with what is behind the dot, so the scan stops at this one.
    have hreverse : (before ++ '.' :: behind).reverse =
        behind.reverse ++ '.' :: before.reverse := by
      simp
    rw [hreverse, List.takeWhile_append_of_pos hkept, List.dropWhile_append_of_pos hkept]
    simp

/-- The parts of a token are divided by its last two dots. -/
theorem parse?_eq_some {token : String} {t : Compact} :
    parse? token = some t ↔ token.toList = t.signed ++ '.' :: t.signature ∧ '.' ∉ t.signature ∧
      t.signed = t.header ++ '.' :: t.claims ∧ '.' ∉ t.claims := by
  rw [parse?, ofChars?]
  constructor
  · intro h
    -- Two splits in a row: the signature comes off first, then the claims.
    obtain ⟨⟨signed, signature⟩, hlast, h⟩ := Option.bind_eq_some_iff.mp h
    obtain ⟨⟨header, claims⟩, hfirst, h⟩ := Option.bind_eq_some_iff.mp h
    obtain rfl := Option.some.inj h
    obtain ⟨htoken, hsignature⟩ := splitAtLastDot_eq_some.mp hlast
    obtain ⟨hsigned, hclaims⟩ := splitAtLastDot_eq_some.mp hfirst
    exact ⟨htoken, hsignature, hsigned, hclaims⟩
  · rintro ⟨htoken, hsignature, hsigned, hclaims⟩
    have hlast := splitAtLastDot_eq_some.mpr ⟨htoken, hsignature⟩
    have hfirst := splitAtLastDot_eq_some.mpr ⟨hsigned, hclaims⟩
    rw [hlast]
    -- The second split is that of what the signature was for.
    show (splitAtLastDot t.signed).bind _ = _
    rw [hfirst]
    rfl

/-- A token whose first two parts are bytes is divided into their texts and the signature. -/
theorem parse?_of_bytes (header claims : Bytes) {signature : List Char} (h : '.' ∉ signature) :
    parse? (String.ofList (Base64.address header ++ '.' ::
        (Base64.address claims ++ '.' :: signature))) =
      some ⟨Base64.address header ++ '.' :: Base64.address claims, Base64.address header,
        Base64.address claims, signature⟩ := by
  -- What is written in place of bytes holds no dot, so the last two dots are the ones put in.
  refine parse?_eq_some.mpr ⟨?_, h, rfl, Base64.notMem_address rfl claims⟩
  rw [String.toList_ofList, List.append_assoc, List.cons_append]

/-- No other token is divided so. -/
theorem eq_of_parse? {token : String} {t : Compact} {header claims : Bytes}
    (h : parse? token = some t) (hheader : Base64.ofAddress? t.header = some header)
    (hclaims : Base64.ofAddress? t.claims = some claims) :
    token = String.ofList (Base64.address header ++ '.' ::
      (Base64.address claims ++ '.' :: t.signature)) ∧ '.' ∉ t.signature := by
  obtain ⟨htoken, hsignature, hsigned, -⟩ := parse?_eq_some.mp h
  refine ⟨?_, hsignature⟩
  -- Bytes have one writing only, and it is the text that they were read from.
  rw [← Base64.ofAddress?_eq_some.mp hheader, ← Base64.ofAddress?_eq_some.mp hclaims,
    ← String.ofList_toList (s := token), htoken, hsigned, List.append_assoc, List.cons_append]

/-- A part is read if it is bytes, and those are a document of the shape. -/
theorem read?_eq_some {shape : Shape α} {part : List Char} {value : α} :
    read? shape part = some value ↔ ∃ bytes, Base64.ofAddress? part = some bytes ∧
      ∃ d : Document, d.Spans bytes ∧ shape d = .ok value := by
  simp only [read?, Option.bind_eq_some_iff, toOption_eq_some, Shape.read_eq_ok]

end Roster.Token.Compact
