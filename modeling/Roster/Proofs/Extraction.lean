import Mathlib.Tactic.Common
import Roster.Http.Extraction
import Roster.Service.Membership

/-!
# Payloads that may be missing

A payload that may be missing is taken out of a request in a roundabout way: its body is taken in,
the request is put together again, and only then is it read like one whose payload has to be there.
Nothing of the request is lost on that way.

* `takeIn_of_le`, `takeIn_of_lt` — a body is taken in as a whole or not at all, and its length alone
  decides, however it is cut into pieces;
* `request_ofBody` — the request that is put together again is the one that came;
* `extract?_eq_read?` — so the payload is the one that `read?` finds in the request with all of its
  body, which is what a server that has the body at hand goes by;
* `optional_payload_agrees` — there is no payload exactly in a body of blanks that is not too long.
  Every other body that is not too long brings what it would bring if the payload had to be there,
  a failure with all that it tells included, and a body that is too long brings none to either.

The limit on a body that is taken in and the one on a body that is read are constants of their own.
That they are one number matters to the bodies between them: if the first one were smaller, such a
body would be refused where its payload may be missing, and read where the payload has to be there.
-/

namespace Roster.Http.Payload

open Text Json

variable {α : Type} {shape : Shape α} {rules : List (Rule α)} {r : Incoming}

/-! ### Taking a body in -/

theorem takeIn_of_le {room : Nat} {pieces : List Bytes} (h : pieces.flatten.length ≤ room) :
    takeIn room pieces = some pieces.flatten := by
  induction pieces generalizing room with
  | nil => rfl
  | cons piece pieces ih =>
    rw [List.flatten_cons, List.length_append] at h
    -- There is room for the first piece, and behind it for the others.
    have hpiece : ¬ room < piece.length := by omega
    have hrest : pieces.flatten.length ≤ room - piece.length := by omega
    calc takeIn room (piece :: pieces)
        = (takeIn (room - piece.length) pieces).map (piece ++ ·) := by rw [takeIn, if_neg hpiece]
      _ = some (piece ++ pieces.flatten) := by rw [ih hrest, Option.map_some]
      _ = some (piece :: pieces).flatten := by rw [List.flatten_cons]

theorem takeIn_of_lt {room : Nat} {pieces : List Bytes} (h : room < pieces.flatten.length) :
    takeIn room pieces = none := by
  induction pieces generalizing room with
  | nil => exact absurd h (Nat.not_lt_zero room)
  | cons piece pieces ih =>
    rw [List.flatten_cons, List.length_append] at h
    unfold takeIn
    split
    · rfl
    · -- The first piece found room, so it is the others that do not.
      have hrest : room - piece.length < pieces.flatten.length := by omega
      rw [ih hrest, Option.map_none]

/-! ### Blanks -/

/-- The blanks of ASCII: tab, line feed, form feed, carriage return and space. -/
def asciiBlanks : List UInt8 := [0x09, 0x0A, 0x0C, 0x0D, 0x20]

theorem isBlankByte_iff {b : UInt8} : isBlankByte b = true ↔ b ∈ asciiBlanks := by
  simp only [isBlankByte, asciiBlanks, Bool.or_eq_true, beq_iff_eq, List.mem_cons,
    List.not_mem_nil, or_false]
  -- Either side is the same five cases, nested in another way.
  tauto

theorem all_isBlankByte_iff {body : Bytes} :
    body.all isBlankByte = true ↔ ∀ b ∈ body, b ∈ asciiBlanks := by
  rw [List.all_eq_true]
  exact forall₂_congr fun _ _ => isBlankByte_iff

/-! ### Putting a request together again -/

theorem request_ofBody (r : Incoming) :
    (Incoming.ofBody r.head r.body).request = r.request := by
  unfold Incoming.request
  congr 1
  -- The body of one piece is the piece with nothing behind it.
  exact List.append_nil r.body

theorem extract_ofBody : extract shape rules (.ofBody r.head r.body) = extract shape rules r := by
  unfold extract
  rw [request_ofBody]
  rfl

/-! ### The three kinds of bodies -/

theorem extract?_of_lt (h : greatestOptional < r.body.length) :
    extract? shape rules r = .error (r.head.failure .tooLongToSkip) := by
  unfold extract?
  rw [takeIn_of_lt h]

theorem extract?_of_blank (hle : r.body.length ≤ greatestOptional)
    (hblank : ∀ b ∈ r.body, b ∈ asciiBlanks) : extract? shape rules r = .ok none := by
  unfold extract?
  rw [takeIn_of_le hle]
  exact if_pos (all_isBlankByte_iff.mpr hblank)

theorem extract?_of_not_blank (hle : r.body.length ≤ greatestOptional)
    (hblank : ¬ ∀ b ∈ r.body, b ∈ asciiBlanks) :
    extract? shape rules r = (extract shape rules r).map some := by
  -- The body was taken in whole, so the test for blanks is that of all its bytes.
  have hall : ¬ r.body.all isBlankByte = true := fun h => hblank (all_isBlankByte_iff.mp h)
  calc extract? shape rules r
      = if r.body.all isBlankByte then .ok none
        else (extract shape rules (.ofBody r.head r.body)).map some := by
          unfold extract?
          rw [takeIn_of_le hle]
          rfl
    _ = (extract shape rules (.ofBody r.head r.body)).map some := if_neg hall
    _ = (extract shape rules r).map some := by rw [extract_ofBody]

/-- No payload is what a body of blanks comes to, if it is not too long, and no other body. -/
theorem extract?_eq_none_iff : extract? shape rules r = .ok none ↔
    r.body.length ≤ greatestOptional ∧ ∀ b ∈ r.body, b ∈ asciiBlanks := by
  constructor
  · intro hnone
    -- A body that is too long is a failure and no payload.
    have hle : r.body.length ≤ greatestOptional := by
      by_contra hlt
      rw [extract?_of_lt (Nat.not_le.mp hlt)] at hnone
      cases hnone
    refine ⟨hle, ?_⟩
    by_contra hblank
    -- A body that is read comes to a failure or to a payload.
    rw [extract?_of_not_blank hle hblank] at hnone
    cases hextract : extract shape rules r with
    | error e =>
      rw [hextract] at hnone
      cases hnone
    | ok value =>
      rw [hextract] at hnone
      cases hnone
  · rintro ⟨hle, hblank⟩
    exact extract?_of_blank hle hblank

/-- A payload that may be missing is taken out of a request as it is read from the request with all
of its body. -/
theorem extract?_eq_read? (shape : Shape α) (rules : List (Rule α)) (r : Incoming) :
    extract? shape rules r = (read? shape rules r.request).mapError r.head.failure := by
  unfold read?
  -- The three cases of the reader are the three kinds of bodies.
  split_ifs with hlt hblank
  · exact extract?_of_lt hlt
  · exact extract?_of_blank (Nat.not_lt.mp hlt) (all_isBlankByte_iff.mp hblank)
  · rw [extract?_of_not_blank (Nat.not_lt.mp hlt) fun h => hblank (all_isBlankByte_iff.mpr h)]
    unfold extract
    cases read shape rules r.request with
    | error e => rfl
    | ok value => rfl

/-- A body that is too long is refused, either for its kind, which is looked at first, or for its
length. -/
theorem read_eq_error_of_lt (shape : Shape α) (rules : List (Rule α)) {request : Request}
    (h : greatestLength < request.body.length) :
    ∃ e, read shape rules request = .error e ∧ e.kind = .invalidBody := by
  unfold read
  -- The content type is looked at before the length.
  cases request.hasJson with
  | false => exact ⟨.otherContent, rfl, rfl⟩
  | true =>
    refine ⟨.tooLong, ?_, rfl⟩
    rw [if_pos h]
    rfl

/-! ### The two ways of taking a payload out -/

/-- **A payload that may be missing is taken out like one that has to be there.** -/
theorem optional_payload_agrees (shape : Shape α) (rules : List (Rule α)) (r : Incoming) :
    (extract? shape rules r = .ok none ↔
      r.body.length ≤ 2 * 1024 * 1024 ∧ ∀ b ∈ r.body, b ∈ asciiBlanks) ∧
    (r.body.length ≤ 2 * 1024 * 1024 → (¬ ∀ b ∈ r.body, b ∈ asciiBlanks) →
      extract? shape rules r = (extract shape rules r).map some) ∧
    (2 * 1024 * 1024 < r.body.length → ∃ e e',
      extract? shape rules r = .error e ∧ extract shape rules r = .error e' ∧
      e.failure.kind = .invalidBody ∧ e'.failure.kind = .invalidBody ∧
      e.requestId = e'.requestId) := by
  refine ⟨extract?_eq_none_iff, extract?_of_not_blank, fun hlt => ?_⟩
  -- The limit is one for both, so a body that is not taken in is not read either.
  have hlong : greatestLength < r.request.body.length := hlt
  obtain ⟨e, hread, hkind⟩ := read_eq_error_of_lt shape rules hlong
  refine ⟨_, r.head.failure e, extract?_of_lt hlt, ?_, rfl, hkind, rfl⟩
  -- Either way the failure carries the request id of the head.
  unfold extract
  rw [hread]
  rfl

/-- A batch whose text is cut in the middle. -/
def cutBatch : Incoming where
  head := { headers := [⟨"Content-Type", utf8 "application/json"⟩], requestId := some "first" }
  pieces := [utf8 "\x7b\"data\":[\x7b\"id\":\"gu", utf8 "est\"\x7d]\x7d"]

/-- A body of spaces that comes in two pieces. -/
def spaces (first second : Nat) : Incoming where
  head := { requestId := some "second" }
  pieces := [List.replicate first 0x20, List.replicate second 0x20]

theorem body_spaces (first second : Nat) :
    (spaces first second).body = List.replicate (first + second) 0x20 := by
  unfold Incoming.body spaces
  simp only [List.flatten_cons, List.flatten_nil, List.append_nil,
    List.replicate_append_replicate]

/-- The batch is found, as many spaces as may be are no payload, and one more is a failure. -/
theorem batch_and_spaces_agree :
    (cutBatch.body.length ≤ 2 * 1024 * 1024 ∧ (¬ ∀ b ∈ cutBatch.body, b ∈ asciiBlanks) ∧
      extract? IdentityBatch.shape [] cutBatch = .ok (some ⟨some [some "guest"]⟩)) ∧
    extract? IdentityBatch.shape [] (spaces (2 * 1024 * 1024) 0) = .ok none ∧
    2 * 1024 * 1024 < (spaces (2 * 1024 * 1024) 1).body.length ∧ ∃ e e',
      extract? IdentityBatch.shape [] (spaces (2 * 1024 * 1024) 1) = .error e ∧
      extract IdentityBatch.shape [] (spaces (2 * 1024 * 1024) 1) = .error e' ∧
      e.failure.kind = .invalidBody ∧ e'.failure.kind = .invalidBody ∧
      e.requestId = e'.requestId := by
  have hshort : cutBatch.body.length ≤ 2 * 1024 * 1024 := by decide +kernel
  have hblank : ¬ ∀ b ∈ cutBatch.body, b ∈ asciiBlanks := by decide +kernel
  have hextract : extract IdentityBatch.shape [] cutBatch = .ok ⟨some [some "guest"]⟩ := by
    decide +kernel
  have hfull : (spaces (2 * 1024 * 1024) 0).body.length ≤ 2 * 1024 * 1024 := by
    simp only [body_spaces, List.length_replicate, Nat.add_zero, Nat.le_refl]
  -- The long bodies are not evaluated; they are known by their length and by what they repeat.
  have hspace : ∀ b ∈ (spaces (2 * 1024 * 1024) 0).body, b ∈ asciiBlanks := by
    intro b hb
    rw [body_spaces] at hb
    rw [List.eq_of_mem_replicate hb]
    decide
  have hlong : 2 * 1024 * 1024 < (spaces (2 * 1024 * 1024) 1).body.length := by
    rw [body_spaces, List.length_replicate]
    exact Nat.lt_succ_self _
  refine ⟨⟨hshort, hblank, ?_⟩, ?_, hlong, ?_⟩
  · rw [(optional_payload_agrees _ _ cutBatch).2.1 hshort hblank, hextract]
    rfl
  · exact (optional_payload_agrees _ _ (spaces _ 0)).1.mpr ⟨hfull, hspace⟩
  · exact (optional_payload_agrees _ _ (spaces _ 1)).2.2 hlong

end Roster.Http.Payload
