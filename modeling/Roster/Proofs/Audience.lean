import Roster.Proofs.Compact
import Roster.Token.Realm

/-!
# The audience of a token

A realm that is known as an audience looks at the claim `aud` of a token only where it is a text or
a list of texts. Such a claim has to name the audience. A token without the claim, or with one of
another kind, counts as it does for a realm that is known as no audience at all
(`Realm.accept_iff_of_audience`).

The argument follows the members of the claims through their reader: the member of a name is read at
most once, and of the five slots only the one of `aud` says anything about audiences
(`Claims.audiences_of_readMembers`). That claims are read as an object is because the subject is read
from the same text, as a record with one member: no list has the length of both records.
-/

namespace Roster.Token

open Json Text

/-! ### Claims as they are written -/

/-- The value under a name of claims, if the claims are an object with the name and the value can be
kept. -/
def Compact.claim? (t : Compact) (name : String) : Option Json :=
  (Base64.ofAddress? t.claims).bind fun bytes =>
    match (Document.ofBytes bytes).1 with
    | .object members _ => (members.lookup (some name)).bind fun d => d.keep.toOption
    | _ => none

/-! ### Reading claims -/

namespace Claims

/-- The claims that are read. -/
def slots : List (Shape.Slot Draft) :=
  [slot "exp" time fun t c => { c with expires := t },
    slot "nbf" time fun t c => { c with notBefore := t }, slot "sub" single fun _ c => c,
    slot "iss" value fun _ c => c,
    slot "aud" value fun j c => { c with audiences := j.bind audiences? }]

theorem fill_slot {α : Type} {name : String} {shape : Shape α} {put : α → Claims → Claims}
    {draft after : Draft} {d : Document} (h : (slot name shape put).fill draft d = .ok after) :
    ∃ a, shape d = .ok a ∧ after = ⟨name :: draft.seen, put a draft.claims⟩ := by
  change (shape d).map (fun a => (⟨name :: draft.seen, put a draft.claims⟩ : Draft)) = _ at h
  cases ha : shape d with
  | error problem =>
    rw [ha] at h
    cases h
  | ok a =>
    rw [ha] at h
    exact ⟨a, rfl, (Except.ok.inj h).symm⟩

theorem value_eq_ok {d : Document} {j : Option Json} (h : value d = .ok j) :
    j = d.keep.toOption := by
  rw [value] at h
  -- What cannot be kept is taken as no value where the text ends, and fails inside of it.
  cases hd : d.keep with
  | ok kept =>
    rw [hd] at h
    exact (Except.ok.inj h).symm
  | error flaw =>
    rw [hd] at h
    cases flaw with
    | atEnd => exact (Except.ok.inj h).symm
    | inside => cases h

/-- To read a claim does two things: the claim is seen from then on, and if it is `aud`, it says what
the audiences are. -/
theorem fill_of_mem {s : Shape.Slot Draft} (hs : s ∈ slots) {draft after : Draft} {d : Document}
    (h : s.fill draft d = .ok after) :
    after.seen = s.name :: draft.seen ∧ after.claims.audiences =
      if s.name = "aud" then d.keep.toOption.bind audiences? else draft.claims.audiences := by
  simp only [slots, List.mem_cons, List.not_mem_nil, or_false] at hs
  -- Of the five slots only the last one has a say in the audiences.
  rcases hs with rfl | rfl | rfl | rfl | rfl <;> obtain ⟨a, ha, rfl⟩ := fill_slot h
  · exact ⟨rfl, rfl⟩
  · exact ⟨rfl, rfl⟩
  · exact ⟨rfl, rfl⟩
  · exact ⟨rfl, rfl⟩
  · obtain rfl := value_eq_ok ha
    exact ⟨rfl, rfl⟩

theorem isFilled_of_mem {s : Shape.Slot Draft} (hs : s ∈ slots) (draft : Draft) :
    s.isFilled draft = draft.seen.contains s.name := by
  simp only [slots, List.mem_cons, List.not_mem_nil, or_false] at hs
  rcases hs with rfl | rfl | rfl | rfl | rfl <;> rfl

/-- The audiences that are read are those of the member `aud`. There is one member of that name at
most, and none if the claim has been seen before. -/
theorem audiences_of_readMembers {members : List (Option String × Document)} {draft after : Draft}
    (h : Shape.Record.readMembers slots members draft = .ok after) :
    after.claims.audiences =
        ((members.lookup (some "aud")).map fun d => d.keep.toOption.bind audiences?).getD
          draft.claims.audiences ∧
      ("aud" ∈ draft.seen → members.lookup (some "aud") = none) := by
  -- Induction on the members, from any draft: what is in front shows in what has been seen.
  induction members generalizing draft with
  | nil =>
    cases h
    exact ⟨rfl, fun _ => rfl⟩
  | cons member rest ih =>
    obtain ⟨_ | name, d⟩ := member
    · -- A name that is no text is refused.
      cases h
    -- A member of another name is not the one that is looked for.
    have hskip (hname : name ≠ "aud") :
        List.lookup (some "aud") ((some name, d) :: rest) = rest.lookup (some "aud") := by
      have hne : (some "aud" == some name) = false := by simpa using hname.symm
      rw [List.lookup_cons, hne]
    rcases Shape.Record.readMembers_cons h with
      ⟨hunknown, hrest⟩ | ⟨s, hs, rfl, hempty, middle, hfill, hrest⟩
    · -- An unknown member is passed over, and `aud` is known.
      have hname : name ≠ "aud" := by
        rintro rfl
        simp [slots, slot] at hunknown
      rw [hskip hname]
      exact ih hrest
    obtain ⟨hseen, haudiences⟩ := fill_of_mem hs hfill
    obtain ⟨hafter, hnone⟩ := ih hrest
    by_cases hname : s.name = "aud"
    -- From here on the claim has been seen, so the rest has no say in it.
    · have hlast : rest.lookup (some "aud") = none := hnone (by simp [hseen, hname])
      rw [if_pos hname] at haudiences
      rw [hlast] at hafter
      constructor
      · rw [hname, List.lookup_cons_self]
        exact hafter.trans haudiences
      · intro hdraft
        rw [isFilled_of_mem hs, hname] at hempty
        simp [hdraft] at hempty
    · -- A member of another slot leaves the audiences alone, and `aud` may still come.
      rw [if_neg hname] at haudiences
      rw [haudiences] at hafter
      rw [hskip hname]
      refine ⟨hafter, ?_⟩
      intro hdraft
      have hstill : "aud" ∈ middle.seen := by simp [hseen, hdraft]
      exact hnone hstill

end Claims

/-- A document that is read both as a subject and as claims is an object. -/
theorem object_of_shapes {d : Document} {subject : String} {claims : Claims}
    (hsubject : Realm.subjectShape d = .ok subject) (hclaims : Claims.shape d = .ok claims) :
    ∃ members closed draft, d = .object members closed ∧
      Shape.Record.readMembers Claims.slots members {} = .ok draft ∧ claims = draft.claims := by
  cases d with
  | object members closed =>
    obtain ⟨-, draft, hdraft, hfinish⟩ := Shape.Record.shape_object_eq_ok.mp hclaims
    -- A record of claims has nothing that it requires, so every draft finishes.
    exact ⟨members, closed, draft, rfl, hdraft, (Option.some.inj hfinish).symm⟩
  -- A list would need one item for the subject and five for the claims.
  | array items closed =>
    obtain ⟨_, _, hone, -⟩ := Shape.Record.shape_array_eq_ok.mp hsubject
    obtain ⟨_, full, hfive, hfinish⟩ := Shape.Record.shape_array_eq_ok.mp hclaims
    have hle : items.length ≤ 1 := (Shape.Record.length_of_readItems hone).1
    cases full with
    | false => cases hfinish
    | true =>
      have hlength : items.length = 5 := (Shape.Record.length_of_readItems hfive).2 rfl
      omega
  | null => cases hclaims
  | bool b => cases hclaims
  | number n => cases n <;> cases hclaims
  | text s => cases s <;> cases hclaims
  | deep container => cases hclaims
  | broken => cases hclaims

/-! ### Tokens that count -/

/-- The audiences of a token with the realm's signature are those that its claim `aud` names. -/
theorem Realm.audiences_eq {r : Realm} {t : Compact} {subject : Subject} {claims : Claims}
    (h : r.claims? t = some (subject, claims)) :
    claims.audiences = (t.claim? "aud").bind Claims.audiences? := by
  rw [Realm.claims?] at h
  obtain ⟨header, -, h⟩ := Option.bind_eq_some_iff.mp h
  -- Only a token that names the algorithm and has the signature has claims.
  split at h
  · obtain ⟨text, htext, h⟩ := Option.bind_eq_some_iff.mp h
    obtain ⟨read, hread, h⟩ := Option.bind_eq_some_iff.mp h
    obtain rfl : read = claims := congrArg Prod.snd (Option.some.inj h)
    -- The subject and the claims are read from the same bytes.
    obtain ⟨bytes, hbytes, d, hspans, hsubject⟩ := Compact.read?_eq_some.mp htext
    obtain ⟨_, hsame, _, hsameSpans, hclaims⟩ := Compact.read?_eq_some.mp hread
    obtain rfl := Option.some.inj (hbytes.symm.trans hsame)
    obtain rfl := congrArg Prod.fst (hspans.symm.trans hsameSpans)
    obtain ⟨members, closed, draft, rfl, hdraft, rfl⟩ := object_of_shapes hsubject hclaims
    obtain ⟨haudiences, -⟩ := Claims.audiences_of_readMembers hdraft
    have hobject : (Document.ofBytes bytes).1 = .object members closed := congrArg Prod.fst hspans
    rw [haudiences, Compact.claim?, hbytes]
    simp only [Option.bind_some, hobject]
    cases members.lookup (some "aud") with
    | none => rfl
    | some d => rfl
  · cases h

/-- What a token needs to count, the audience apart. -/
theorem Realm.accept?_eq_some {r : Realm} {now : Nat} {token : String} {subject : Subject} :
    r.accept? now token = some subject ↔ ∃ t claims, Compact.parse? token = some t ∧
      r.claims? t = some (subject, claims) ∧ claims.hold now r.audience = true := by
  rw [Realm.accept?]
  constructor
  · intro h
    obtain ⟨t, ht, h⟩ := Option.bind_eq_some_iff.mp h
    obtain ⟨⟨other, claims⟩, hclaims, h⟩ := Option.bind_eq_some_iff.mp h
    cases hhold : claims.hold now r.audience with
    | false => simp [hhold] at h
    | true =>
      obtain rfl : other = subject := by simpa [hhold] using h
      exact ⟨t, claims, ht, hclaims, hhold⟩
  · rintro ⟨t, claims, ht, hclaims, hhold⟩
    simp [ht, hclaims, hhold]

/-- Claims hold for a reader that is known as an audience if they hold for any and, where they name
audiences, name that one. -/
theorem Claims.hold_some {c : Claims} {now : Nat} {a : String} :
    c.hold now (some a) = true ↔
      c.hold now none = true ∧ ∀ texts, c.audiences = some texts → a ∈ texts := by
  -- The audience is looked at in one place, which is passed if there is none.
  obtain ⟨expires, notBefore, _ | audiences⟩ := c <;> simp [hold]

theorem Claims.texts?_eq_some {items : List Json} {texts : List String} :
    texts? items = some texts ↔ items = texts.map .string := by
  -- Induction on the items: all of them have to be texts.
  induction items generalizing texts with
  | nil => cases texts <;> simp [texts?]
  | cons item rest ih =>
    cases item with
    | string text =>
      cases texts with
      | nil => simp [texts?]
      | cons first others =>
        simp only [texts?, Option.map_eq_some_iff, ih, List.map_cons, List.cons.injEq,
          Json.string.injEq]
        constructor
        · rintro ⟨_, hrest, rfl, rfl⟩
          exact ⟨rfl, hrest⟩
        · rintro ⟨rfl, hrest⟩
          exact ⟨others, hrest, rfl, rfl⟩
    | _ => cases texts <;> simp [texts?]

/-- **What the audience decides.** With an audience, a realm accepts the tokens that it accepts
without one, but for those whose claim `aud` is another text, or a list of texts without the audience.
Tokens that lack the claim, and those whose claim is of another kind, are accepted. -/
theorem Realm.accept_iff_of_audience (r : Realm) (a : String) (now : Nat) (token : String)
    (subject : Subject) :
    ({ r with audience := some a } : Realm).accept? now token = some subject ↔
      ({ r with audience := none } : Realm).accept? now token = some subject ∧
        ∀ t, Compact.parse? token = some t →
          (∀ text, t.claim? "aud" = some (.string text) → text = a) ∧
            ∀ texts : List String,
              t.claim? "aud" = some (.array (texts.map .string)) → a ∈ texts := by
  -- The audiences that a claim names are a text, or texts in a list, and nothing else.
  have hnames (claimed : Option Json) :
      (∀ texts, claimed.bind Claims.audiences? = some texts → a ∈ texts) ↔
        (∀ text, claimed = some (.string text) → text = a) ∧
          ∀ texts : List String, claimed = some (.array (texts.map .string)) → a ∈ texts := by
    rcases claimed with _ | value
    · simp
    cases value with
    | string text => simp [Claims.audiences?, eq_comm]
    | array items => simp [Claims.audiences?, Claims.texts?_eq_some]
    | _ => simp [Claims.audiences?]
  rw [Realm.accept?_eq_some, Realm.accept?_eq_some]
  constructor
  · rintro ⟨t, claims, ht, hclaims, hhold⟩
    -- Behind the signature both realms see the same claims, and differ in the last condition.
    obtain ⟨hhold, hmember⟩ := Claims.hold_some.mp hhold
    rw [Realm.audiences_eq hclaims] at hmember
    refine ⟨⟨t, claims, ht, hclaims, hhold⟩, fun other hother => ?_⟩
    obtain rfl := Option.some.inj (ht.symm.trans hother)
    exact (hnames _).mp hmember
  · rintro ⟨⟨t, claims, ht, hclaims, hhold⟩, hmember⟩
    refine ⟨t, claims, ht, hclaims, Claims.hold_some.mpr ⟨hhold, ?_⟩⟩
    rw [Realm.audiences_eq hclaims]
    exact (hnames _).mpr (hmember t ht)

/-- A realm that is known as the audience of a platform. -/
def Realm.platform : Realm where
  key := [0x3082010a0282010100d883a7b5539a67248c4691, 0xb65e480a5dd569303e0dc3b7c3b09b6fe4d058d5,
    0x56168c8c417b42991c9ac739e90b5d05070ca031, 0xf9cd0a12bbb589d334eec439710ae5f06b780194,
    0x063e63915b5e240596fda4f3a984be6fc6f05c1c, 0x44a9fc96d4f250074154cc947e484045cdc94239,
    0x3e338a52113d2a6bd63a36341723e7215f60a026, 0x05154c3ae71385e12048c96f246475fa9a6fb22d,
    0x07f5ffa01765ed2deb08928daad356fe31f51621, 0x0da297e48c2277945928731c04834b31f20efb0a,
    0x0ffaf0afa51a8317bf894957c35ee2e782c4b764, 0x1bece78a828788d740ca18270459ddd94488e2a2,
    0x95796c541a6b8543e8bac8739720d69c5a8e161b].flatMap
    (Digest.bytesOf 20) ++ Digest.bytesOf 10 0x8825cdbe130203010001
  audience := some "platform"

/-- A token of the realm. Its claims are a subject and the second at which it expires. -/
def Realm.platformToken : List Char :=
  ["eyJhbGciOiJSUzI1NiIs", "InR5cCI6IkpXVCJ9.eyJ", "zdWIiOiJjYTExZTIwMC0", "wMDAwLTQwMDAtODAwMC0",
    "wMDAwMDAwMGNhMTEiLCJ", "leHAiOjQxMDI0NDQ4MDB", "9.Ysw4XxP7w9L50XNiLv", "vTeimUIKtj5_T_vh6-KV",
    "HeMvpKAcR6TKRi85S-Ny", "5jgqc6I0i6XaDyGssIEB", "mTMhfwsaUgacmRJQ1Zvx", "TBrcZuG8gPURWoAgZKGs",
    "9otiaf3rMJWX5XKWpFFc", "97jmb0jo_1I-yACt4bFr", "WDODUGb_gcvA7bssbOsl", "K_Q01Ql8PyTu9QG24jhP",
    "gezmrtdcHRQ99ynSkTEw", "WMaaKqVk4ovbfKDu5zmG", "4kh57aooedw9DFsIwMBi", "8-7LDn2EkRPAuZo4EAXD",
    "ahaUhCLnTqWdcRnO0by7", "Nws9ulxJSOZlwHCjW5n9", "cQDlU2qfsa6hpDDPSrPx", "cFQw"].flatMap
    String.toList

theorem Realm.parse?_platformToken :
    Compact.parse? (String.ofList platformToken) = Compact.ofChars? platformToken := by
  rw [Compact.parse?, String.toList_ofList]

theorem Realm.accept?_platformToken :
    platform.accept? 0 (String.ofList platformToken) =
      some ⟨"ca11e200-0000-4000-8000-00000000ca11"⟩ := by
  rw [accept?, parse?_platformToken]
  decide +kernel

/-- A realm that is known as an audience accepts a token that does not say whom it is for. -/
theorem Realm.accepts_token_for_nobody :
    ¬ ∀ (r : Realm) (a : String) (now : Nat) (token : String) (subject : Subject),
      r.audience = some a → r.accept? now token = some subject →
        ∃ t, Compact.parse? token = some t ∧ (t.claim? "aud" = some (.string a) ∨
          ∃ texts : List String, t.claim? "aud" = some (.array (texts.map .string)) ∧ a ∈ texts) := by
  intro hall
  obtain ⟨t, ht, haud⟩ := hall platform "platform" 0 _ _ rfl accept?_platformToken
  -- The token has no claim of that name at all.
  have hnone : ((Compact.ofChars? platformToken).bind (·.claim? "aud")).isNone = true := by
    decide +kernel
  rw [← parse?_platformToken, ht] at hnone
  rcases haud with haud | ⟨texts, haud, -⟩
  · simp [haud] at hnone
  · simp [haud] at hnone

end Roster.Token
