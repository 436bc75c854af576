import Roster.Proofs.Compact
import Roster.Token.Grant

/-!
# Which permissions a token conveys

A token conveys permissions if it is a header, claims and anything at all for a signature, with dots
between them and with the first two in base 64, if the header names an algorithm that is known, and
if the claims hold a list of permissions. What the claims say about times and audiences does not
matter, as long as it can be read. Where the list is missing, or all of the authorization around it,
nothing is conveyed; that is not the same as a token that cannot be read.

`Grant.ofToken?_eq_some` says that these tokens are the ones that the reader accepts, and that it
reads the permissions that they convey. Each layer has an iff of its own: the split at the dots
(`Compact.parse?_eq_some`), a part (`Compact.read?_eq_some`), the entries of the list
(`Grant.permission_eq_ok`) and what is around it (`Grant.authorization_eq_ok`,
`Grant.shape_eq_ok`).
-/

namespace Roster.Token

open Json Text

variable {α : Type} {d : Document}

/-! ### Headers -/

namespace Header

theorem mem_of_word {words : List String} {s : String} (h : word words d = .ok s) : s ∈ words := by
  unfold word at h
  -- A word is a text or a variant, and has to be one of the words either way.
  split at h
  · split at h
    · rename_i hmem
      obtain rfl := Except.ok.inj h
      simpa using hmem
    · cases h
  · split at h
    · rename_i hmem
      obtain rfl := Except.ok.inj h
      simpa using hmem
    · cases h
  · cases h

/-- A header that is read names a known algorithm. -/
theorem algorithm_mem {header : Header} (h : shape d = .ok header) :
    header.algorithm ∈ algorithms := by
  have hknown : ∃ draft : Draft, (∀ a, draft.algorithm = some a → a ∈ algorithms) ∧
      (draft.algorithm.map Header.mk = some header ∨ none = some header) := by
    -- The invariant of the reader is that the algorithm held is a known one, if one is held.
    refine Shape.Record.exists_of_shape ?_ ?_ h
    · rintro a ⟨⟩
    -- No member but one touches the algorithm.
    have hchecked {name : String} {α : Type} {kind : Shape α} {before after : Draft} {d : Document}
        (hbefore : ∀ a, before.algorithm = some a → a ∈ algorithms)
        (hfill : (checked name kind).fill before d = .ok after) :
        ∀ a, after.algorithm = some a → a ∈ algorithms := by
      obtain ⟨_, -, rfl⟩ := map_eq_ok.mp hfill
      exact hbefore
    intro s hs before d after hbefore hfill
    -- The places of a header are tried in turn; the second is the one of the algorithm.
    simp only [List.mem_cons, List.not_mem_nil, or_false] at hs
    rcases hs with rfl | rfl | rfl | rfl | rfl | rfl | rfl | rfl | rfl | rfl
    case inr.inl =>
      obtain ⟨a, ha, rfl⟩ := map_eq_ok.mp hfill
      rintro _ ⟨⟩
      exact mem_of_word ha
    all_goals exact hchecked hbefore hfill
  obtain ⟨draft, hmem, hfinish | hshort⟩ := hknown
  · obtain ⟨a, ha, rfl⟩ := Option.map_eq_some_iff.mp hfinish
    exact hmem a ha
  · cases hshort

end Header

/-! ### Permissions -/

/-- What a member says that is a text or missing. -/
inductive Mentions : Option Document → Option String → Prop where
  /-- There is no member. -/
  | missing : Mentions none none
  /-- It has the absent value. -/
  | absent : Mentions (some .null) none
  /-- It is a text. -/
  | text (s : String) : Mentions (some (.text (.ok s))) (some s)

namespace Permission

/-- Whether a permission is on a resource, which it names in one of two ways. -/
def IsOn (resource : String) (p : Permission) : Prop :=
  p.name = some resource ∨ p.id = some resource

/-- The names of the members of a permission. -/
def names : List String := ["resource_set_name", "resource_set_id"]

/-- A document that is an entry in a list of permissions. -/
structure Written (d : Document) (p : Permission) : Prop where
  /-- It is a record with two members. -/
  record : d.IsRecord names
  /-- One is the name of the resource. -/
  name : Mentions (d.member? names "resource_set_name") p.name
  /-- The other one is its identifier. -/
  id : Mentions (d.member? names "resource_set_id") p.id

end Permission

/-- What claims grant: the entries of a list, or nothing where the list is missing. -/
inductive Lists : Document → List Permission → Prop where
  /-- There is no authorization. -/
  | unauthorized {d : Document} (h : d.IsRecord ["authorization"])
      (hnone : d.member? ["authorization"] "authorization" = none) : Lists d []
  /-- The authorization has the absent value. -/
  | absent {d : Document} (h : d.IsRecord ["authorization"])
      (hnull : d.member? ["authorization"] "authorization" = some .null) : Lists d []
  /-- The authorization has no list. -/
  | unlisted {d a : Document} (h : d.IsRecord ["authorization"])
      (hauthorization : d.member? ["authorization"] "authorization" = some a)
      (ha : a.IsRecord ["permissions"]) (hnone : a.member? ["permissions"] "permissions" = none) :
      Lists d []
  /-- The authorization has a list. -/
  | listed {d a : Document} {items : List Document} {permissions : List Permission}
      (h : d.IsRecord ["authorization"])
      (hauthorization : d.member? ["authorization"] "authorization" = some a)
      (ha : a.IsRecord ["permissions"])
      (hlist : a.member? ["permissions"] "permissions" = some (.array items true))
      (hitems : List.Forall₂ Permission.Written items permissions) : Lists d permissions

/-- A token that can be read, and the permissions that it conveys. -/
inductive Conveys (permissions : List Permission) : String → Prop where
  /-- The header names a known algorithm, the claims grant the permissions, and the signature is any
  text without a dot. -/
  | intro {header claims : Bytes} {signature : List Char} {top body : Document} {h : Header}
      {c : Claims} (htop : top.Spans header) (hheader : Header.shape top = .ok h)
      (hknown : h.algorithm ∈ Header.algorithms) (hbody : body.Spans claims)
      (hclaims : Claims.shape body = .ok c) (hlists : Lists body permissions)
      (hsignature : '.' ∉ signature) :
      Conveys permissions
        (String.ofList
          (Base64.address header ++ '.' :: (Base64.address claims ++ '.' :: signature)))

namespace Grant

theorem mentions_iff {given : Option Document} {mentioned : Option String} :
    Mentions given mentioned ↔ ∃ read, Shape.Fills (Shape.optional .text) given none read ∧
      read.getD none = mentioned := by
  constructor
  · -- Whatever is mentioned, the optional text is filled with it, or left out.
    rintro (_ | _ | s)
    · exact ⟨none, .missing _, rfl⟩
    · exact ⟨some none, .given _ rfl, rfl⟩
    · exact ⟨some (some s), .given _ rfl, rfl⟩
  · rintro ⟨read, hread, rfl⟩
    cases hread with
    | missing => exact .missing
    | given _ h =>
      rcases Shape.optional_eq_ok.mp h with ⟨rfl, rfl⟩ | ⟨-, s, hs, rfl⟩
      · exact .absent
      · rw [Shape.text_eq_ok.mp hs]
        exact .text s

/-- The place of a member of a permission. -/
def seen (name : String) (draft : Draft) : Option (Option String) :=
  if name = "resource_set_name" then draft.name else draft.id

/-- A permission with a member put into its place. -/
def put (name : String) (mentioned : Option String) (draft : Draft) : Draft :=
  if name = "resource_set_name" then { draft with name := some mentioned }
  else { draft with id := some mentioned }

/-- The two members of a permission have a place each. -/
theorem exists_places : ∃ r : Shape.Record Draft Permission, permission = r.shape ∧
    r.Places (.optional .text) seen put ∧ r.slots.map (·.name) = Permission.names ∧
    ∀ draft, r.finish draft = some ⟨draft.name.getD none, draft.id.getD none⟩ := by
  -- The two places are told apart by name, so the laws are read off the definitions.
  refine ⟨_, rfl, ?_, rfl, fun _ => rfl⟩
  constructor
  case nodup => decide
  case start =>
    intro name hname
    rw [seen]
    split_ifs <;> rfl
  case isFilled =>
    intro s hs record
    rcases List.mem_pair.mp hs with rfl | rfl <;> rfl
  case fill =>
    intro s hs record d
    rcases List.mem_pair.mp hs with rfl | rfl <;> rfl
  case seen_put =>
    intro s hs name hname b record
    rcases List.mem_pair.mp hs with rfl | rfl <;>
      rcases List.mem_pair.mp hname with rfl | rfl <;> rfl
  case ext =>
    -- A draft is determined by what is seen in its two places.
    intro draft draft' hseen
    have hname : draft.name = draft'.name := hseen "resource_set_name" (by simp)
    have hid : draft.id = draft'.id := hseen "resource_set_id" (by simp)
    cases draft
    cases draft'
    cases hname
    cases hid
    rfl
  case finishShort => rfl

theorem permission_eq_ok {p : Permission} : permission d = .ok p ↔ Permission.Written d p := by
  obtain ⟨r, hshape, hplaces, hnames, hfinish⟩ := exists_places
  rw [hshape, hplaces.shape_eq_ok, hnames]
  constructor
  · -- Both places are filled with what the members mention, and the record is read off them.
    rintro ⟨hrecord, draft, hfills, hdraft⟩
    rw [hfinish] at hdraft
    obtain rfl := Option.some.inj hdraft
    have hname := hfills "resource_set_name" (by decide)
    have hid := hfills "resource_set_id" (by decide)
    exact ⟨hrecord, mentions_iff.mpr ⟨_, hname, rfl⟩, mentions_iff.mpr ⟨_, hid, rfl⟩⟩
  · rintro ⟨hrecord, hname, hid⟩
    obtain ⟨name, hname, hnameRead⟩ := mentions_iff.mp hname
    obtain ⟨id, hid, hidRead⟩ := mentions_iff.mp hid
    -- Conversely, what is mentioned fills the places, and the draft with these is the one read.
    refine ⟨hrecord, ⟨name, id⟩, fun other hother => ?_, ?_⟩
    · rcases List.mem_pair.mp hother with rfl | rfl
      · exact hname
      · exact hid
    · rw [hfinish, hnameRead, hidRead]

theorem authorization_eq_ok {permissions : List Permission} :
    authorization d = .ok permissions ↔ d.IsRecord ["permissions"] ∧
      (d.member? ["permissions"] "permissions" = none ∧ permissions = [] ∨
        ∃ items, d.member? ["permissions"] "permissions" = some (.array items true) ∧
          List.Forall₂ Permission.Written items permissions) := by
  rw [authorization, Shape.Record.single_eq_ok "permissions" rfl rfl rfl]
  refine and_congr_right fun _ => ?_
  -- A missing list is an empty one, and a list that is given has to be read entry by entry.
  cases d.member? ["permissions"] "permissions" with
  | none => simp [Shape.fills_none, eq_comm]
  | some list => simp [Shape.fills_some, Shape.list_eq_ok, permission_eq_ok]

theorem shape_eq_ok {g : Grant} : shape d = .ok g ↔ Lists d g.permissions := by
  obtain ⟨granted⟩ := g
  simp only [shape, map_eq_ok, Shape.Record.defaulted_eq_ok, Grant.mk.injEq]
  constructor
  · -- The authorization is missing, absent or a record, and a record has a list or none.
    rintro ⟨_, ⟨hrecord, ⟨hnone, rfl⟩ | ⟨a, hauthorization, hread⟩⟩, rfl⟩
    · exact .unauthorized hrecord hnone
    rcases Shape.optional_eq_ok.mp hread with ⟨rfl, rfl⟩ | ⟨-, permissions, hpermissions, rfl⟩
    · exact .absent hrecord hauthorization
    obtain ⟨ha, ⟨hnone, rfl⟩ | ⟨items, hlist, hitems⟩⟩ := authorization_eq_ok.mp hpermissions
    · exact .unlisted hrecord hauthorization ha hnone
    · exact .listed hrecord hauthorization ha hlist hitems
  · -- An authorization that is a record is not the absent value.
    have hgiven {a : Document} {permissions : List Permission}
        (ha : authorization a = .ok permissions) :
        Shape.optional authorization a = .ok (some permissions) := by
      refine Shape.optional_eq_ok.mpr (.inr ⟨?_, permissions, ha, rfl⟩)
      rintro rfl
      cases ha
    rintro (⟨hrecord, hnone⟩ | ⟨hrecord, hnull⟩ | ⟨hrecord, hauthorization, ha, hnone⟩ |
      ⟨hrecord, hauthorization, ha, hlist, hitems⟩)
    · -- Each way of writing the claims is one path of the reader.
      exact ⟨none, ⟨hrecord, .inl ⟨hnone, rfl⟩⟩, rfl⟩
    · exact ⟨none, ⟨hrecord, .inr ⟨.null, hnull, rfl⟩⟩, rfl⟩
    · have hread := hgiven (authorization_eq_ok.mpr ⟨ha, .inl ⟨hnone, rfl⟩⟩)
      exact ⟨some [], ⟨hrecord, .inr ⟨_, hauthorization, hread⟩⟩, rfl⟩
    · have hread := hgiven (authorization_eq_ok.mpr ⟨ha, .inr ⟨_, hlist, hitems⟩⟩)
      exact ⟨some granted, ⟨hrecord, .inr ⟨_, hauthorization, hread⟩⟩, rfl⟩

theorem covers_iff {g : Grant} {resource : String} :
    g.covers resource = true ↔ ∃ p ∈ g.permissions, p.IsOn resource := by
  simp [covers, Permission.IsOn]

/-- **What a token conveys** is what is read from it. -/
theorem ofToken?_eq_some {token : String} {g : Grant} :
    ofToken? token = some g ↔ Conveys g.permissions token := by
  rw [ofToken?]
  constructor
  · -- The token has three parts, and the header is read first.
    intro h
    obtain ⟨t, ht, h⟩ := Option.bind_eq_some_iff.mp h
    obtain ⟨header, hheader, h⟩ := Option.bind_eq_some_iff.mp h
    obtain ⟨_, hgrant, h⟩ := Option.bind_eq_some_iff.mp h
    obtain ⟨c, hclaims, h⟩ := Option.bind_eq_some_iff.mp h
    obtain rfl := Option.some.inj h
    obtain ⟨headerBytes, hheaderBytes, top, htop, hheader⟩ := Compact.read?_eq_some.mp hheader
    obtain ⟨claimsBytes, hclaimsBytes, body, hbody, hgrant⟩ := Compact.read?_eq_some.mp hgrant
    obtain ⟨_, hsame, _, hsameBody, hclaims⟩ := Compact.read?_eq_some.mp hclaims
    -- The claims are read twice, from the same bytes.
    obtain rfl := Option.some.inj (hclaimsBytes.symm.trans hsame)
    obtain rfl := congrArg Prod.fst (hbody.symm.trans hsameBody)
    obtain ⟨rfl, hsignature⟩ := Compact.eq_of_parse? ht hheaderBytes hclaimsBytes
    exact .intro htop hheader (Header.algorithm_mem hheader) hbody hclaims (shape_eq_ok.mp hgrant)
      hsignature
  · rintro @⟨header, claims, signature, _, _, h, c, htop, hheader, -, hbody, hclaims, hlists,
      hsignature⟩
    -- Either part is the text of bytes that are read.
    have hpart {α : Type} {shape : Shape α} {bytes : Bytes} {d : Document} {value : α}
        (hspans : d.Spans bytes) (hvalue : shape d = .ok value) :
        Compact.read? shape (Base64.address bytes) = some value :=
      Compact.read?_eq_some.mpr ⟨bytes, Base64.ofAddress?_eq_some.mpr rfl, d, hspans, hvalue⟩
    rw [Compact.parse?_of_bytes header claims hsignature]
    simp [Compact.header?, hpart htop hheader, hpart hbody (shape_eq_ok.mpr hlists),
      hpart hbody hclaims]

end Grant

/-- Which known algorithm the header names does not matter, nor when the claims say that the token
expires, nor what stands in the place of the signature: the permissions are those that are listed. -/
theorem conveys_of_items {algorithm : String} (hknown : algorithm ∈ Header.algorithms)
    (expires : Number) {header claims : Bytes} {signature : List Char} {items : List Document}
    {permissions : List Permission}
    (hheader : Document.Spans (.object [(some "alg", .text (.ok algorithm))] true) header)
    (hclaims : Document.Spans (.object [(some "exp", .number (.ok expires)),
      (some "authorization", .object [(some "permissions", .array items true)] true)] true) claims)
    (hitems : List.Forall₂ Permission.Written items permissions) (hsignature : '.' ∉ signature) :
    Conveys permissions
      (String.ofList
        (Base64.address header ++ '.' :: (Base64.address claims ++ '.' :: signature))) := by
  have hread : Header.shape (.object [(some "alg", .text (.ok algorithm))] true) =
      .ok ⟨algorithm⟩ := by
    -- There are twelve known algorithms, and each is read as itself.
    simp only [Header.algorithms, List.mem_cons, List.not_mem_nil, or_false] at hknown
    rcases hknown with rfl | rfl | rfl | rfl | rfl | rfl | rfl | rfl | rfl | rfl | rfl | rfl <;> rfl
  have hclaimed : Claims.shape (.object [(some "exp", .number (.ok expires)),
      (some "authorization", .object [(some "permissions", .array items true)] true)] true) =
      .ok ⟨Claims.seconds? expires, none, none⟩ := rfl
  refine .intro hheader hread hknown hclaims hclaimed ?_ hsignature
  refine .listed (a := .object [(some "permissions", .array items true)] true) ?_ rfl ?_ rfl hitems
  · -- The record of the claims has a member of another name, which is a whole number.
    have hwhole : (Document.number (.ok expires)).isWhole = true := rfl
    simp [Document.IsRecord, hwhole]
  · simp [Document.IsRecord]

end Roster.Token
