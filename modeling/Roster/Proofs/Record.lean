import Mathlib.Data.List.Nodup
import Roster.Json.Shape
import Roster.Proofs.Exchanges

/-!
# Reading records

What the reader of a record makes of a document, said without the reader: the document has to be a
record (`Document.IsRecord`), and each place of the record is filled from the member of its name, if
there is one (`Document.member?`). An object and a list of the members in order come to the same.

That a reader is of this kind is the structure `Shape.Record.Places`: each member has a place of its
own, and all of them are read by one shape. From it `Shape.Record.Places.shape_eq_ok` follows by
induction on the members of an object, and on the slots for the items of a list.
-/

namespace Roster.Json

open Text

variable {α β σ : Type}

/-! ### Whole texts -/

/-- A text that is a document, with nothing behind it. -/
def Document.Spans (d : Document) (bytes : Bytes) : Prop :=
  Document.ofBytes bytes = (d, true)

theorem Shape.read_eq_ok {shape : Shape α} {bytes : Bytes} {value : α} :
    Shape.read shape bytes = .ok value ↔ ∃ d : Document, d.Spans bytes ∧ shape d = .ok value := by
  simp only [Shape.read, Document.Spans]
  obtain ⟨document, last⟩ := Document.ofBytes bytes
  cases hvalue : shape document with
  | error problem =>
    simp only [bind, Except.bind, Prod.mk.injEq, reduceCtorEq, false_iff, not_exists]
    rintro d ⟨⟨rfl, -⟩, hd⟩
    rw [hvalue] at hd
    cases hd
  | ok other => cases last <;> simp [hvalue, bind, Except.bind]

/-! ### Documents that are records -/

namespace Document

/-- A record with members of some names. In an object all names are readable, each of those is there
at most once, and members of other names are JSON to their end. A list has no more items than there
are names. -/
def IsRecord (names : List String) : Document → Prop
  | .object members closed => closed = true ∧
      (∀ member ∈ members, ∃ name, member.1 = some name ∧
        (name ∉ names → member.2.isWhole = true)) ∧
      ∀ name ∈ names, (members.map Prod.fst).count (some name) ≤ 1
  | .array items closed => closed = true ∧ items.length ≤ names.length
  | _ => False

/-- The member of a name: in an object the one that is called so, in a list the one in its place. -/
def member? (names : List String) (name : String) : Document → Option Document
  | .object members _ => members.lookup (some name)
  | .array items _ => (names.zip items).lookup name
  | _ => none

end Document

namespace Shape

/-- What a place holds behind a member, if there is one: what a shape makes of it. -/
inductive Fills (shape : Shape β) : Option Document → Option β → Option β → Prop where
  /-- There is none, and the place is left alone. -/
  | missing (before : Option β) : Fills shape none before before
  /-- There is one that has the shape. -/
  | given (before : Option β) {d : Document} {b : β} (h : shape d = .ok b) :
      Fills shape (some d) before (some b)

variable {shape : Shape β} {before after : Option β} {d : Document} {b : β}

theorem fills_none : Fills shape none before after ↔ after = before := by
  constructor
  · rintro ⟨⟩
    rfl
  · rintro rfl
    exact .missing _

theorem fills_some :
    Fills shape (some d) before after ↔ ∃ b, shape d = .ok b ∧ after = some b := by
  constructor
  · rintro (_ | ⟨_, h⟩)
    exact ⟨_, h, rfl⟩
  · rintro ⟨b, h, rfl⟩
    exact .given _ h

/-- What the members of an object do to the place of a name. -/
structure Settles (shape : Shape β) (name : String) (members : List (Option String × Document))
    (before after : Option β) : Prop where
  /-- The name comes once at most. -/
  once : (members.map Prod.fst).count (some name) ≤ 1
  /-- It does not come for a place that is filled. -/
  unseen : some name ∈ members.map Prod.fst → before = none
  /-- The place is filled from the member of the name. -/
  fills : Fills shape (members.lookup (some name)) before after

variable {name : String} {members rest : List (Option String × Document)}

/-- What does not occur is not found. -/
theorem lookup_eq_none (h : some name ∉ members.map Prod.fst) :
    members.lookup (some name) = none := by
  -- The search compares names, and none of them is the one that is looked for.
  rw [List.lookup_eq_none_iff]
  rintro member hmem
  have hne : some name ≠ member.1 := fun heq => h (heq ▸ List.mem_map_of_mem hmem)
  simpa using hne

theorem settles_nil : Settles shape name [] before after ↔ after = before := by
  constructor
  · rintro ⟨-, -, hfills⟩
    exact fills_none.mp hfills
  · exact fun h => ⟨Nat.zero_le _, nofun, fills_none.mpr h⟩

/-- A member of another name makes no difference. -/
theorem settles_cons_of_ne {other : String} (hne : name ≠ other) :
    Settles shape name ((some other, d) :: rest) before after ↔
      Settles shape name rest before after := by
  -- Neither the count nor the search looks at a member of another name.
  have hcount : (((some other, d) :: rest).map Prod.fst).count (some name) =
      (rest.map Prod.fst).count (some name) :=
    List.count_cons_of_ne (by simpa using hne.symm)
  have hmem : some name ∈ ((some other, d) :: rest).map Prod.fst ↔
      some name ∈ rest.map Prod.fst := by
    rw [List.map_cons, List.mem_cons, Option.some.injEq, or_iff_right hne]
  have hlookup : List.lookup (some name) ((some other, d) :: rest) = rest.lookup (some name) := by
    have hbeq : (some name == some other) = false := by simpa using hne
    rw [List.lookup_cons, hbeq]
  constructor
  · rintro ⟨honce, hunseen, hfills⟩
    rw [hcount] at honce
    rw [hmem] at hunseen
    rw [hlookup] at hfills
    exact ⟨honce, hunseen, hfills⟩
  · rintro ⟨honce, hunseen, hfills⟩
    rw [← hcount] at honce
    rw [← hmem] at hunseen
    rw [← hlookup] at hfills
    exact ⟨honce, hunseen, hfills⟩

/-- A member of the name fills the place, which is not to be filled again. -/
theorem settles_cons_self :
    Settles shape name ((some name, d) :: rest) before after ↔
      before = none ∧ ∃ b, shape d = .ok b ∧ Settles shape name rest (some b) after := by
  constructor
  · rintro ⟨honce, hunseen, hfills⟩
    rw [List.map_cons, List.count_cons_self] at honce
    rw [List.lookup_cons_self] at hfills
    obtain ⟨b, hb, hafter⟩ := fills_some.mp hfills
    have hlast : some name ∉ rest.map Prod.fst := List.count_eq_zero.mp (by omega)
    -- The name does not come again, so the place stays as it is now.
    refine ⟨hunseen List.mem_cons_self, b, hb, by omega, fun hmem => absurd hmem hlast, ?_⟩
    rwa [lookup_eq_none hlast, fills_none]
  · rintro ⟨hbefore, b, hb, -, hunseen, hfills⟩
    -- A filled place must not be filled again, so the name does not occur in the rest.
    have hlast : some name ∉ rest.map Prod.fst := fun hmem => nomatch hunseen hmem
    rw [lookup_eq_none hlast, fills_none] at hfills
    have honce : (rest.map Prod.fst).count (some name) = 0 := List.count_eq_zero_of_not_mem hlast
    refine ⟨?_, fun _ => hbefore, ?_⟩
    · rw [List.map_cons, List.count_cons_self]
      omega
    · rw [List.lookup_cons_self]
      exact fills_some.mpr ⟨b, hb, hfills⟩

namespace Record

section

variable {r : Record σ α} {closed : Bool} {value : α}

theorem finished_eq_ok {finished : Option α} {problem : Problem} :
    (finished.map Except.ok).getD (.error problem) = .ok value ↔ finished = some value := by
  cases finished <;> simp

theorem shape_object_eq_ok :
    r.shape (.object members closed) = .ok value ↔ closed = true ∧
      ∃ record, readMembers r.slots members r.start = .ok record ∧
        r.finish record = some value := by
  rw [shape]
  -- The members are read to the end, and only a closed object is finished.
  cases readMembers r.slots members r.start with
  | error problem => simp [bind, Except.bind]
  | ok record =>
    cases closed with
    | false => simp [bind, Except.bind]
    | true => simp [bind, Except.bind, finished_eq_ok]

theorem shape_array_eq_ok {items : List Document} :
    r.shape (.array items closed) = .ok value ↔
      ∃ record full, readItems closed r.slots items r.start = .ok (record, full) ∧
        (if full then r.finish record else r.finishShort record) = some value := by
  rw [shape]
  cases readItems closed r.slots items r.start with
  | error problem => simp [bind, Except.bind]
  | ok read =>
    obtain ⟨record, full⟩ := read
    show ((if full then r.finish record else r.finishShort record).map Except.ok).getD _ = _ ↔ _
    rw [finished_eq_ok]
    -- What has been read is the record that is finished, in full or cut short.
    constructor
    · exact fun h => ⟨record, full, rfl, h⟩
    · rintro ⟨_, _, hread, h⟩
      obtain ⟨rfl, rfl⟩ := Prod.mk.inj (Except.ok.inj hread)
      exact h

end

/-! ### What a record keeps -/

section

variable {slots : List (Slot σ)} {P : σ → Prop} {record record' : σ}

/-- How the members of a record are read: one of an unknown name is skipped if it is JSON to its
end, and one of a known name is put in if it is the first one of that name. -/
theorem readMembers_cons (h : readMembers slots ((some name, d) :: rest) record = .ok record') :
    (name ∉ slots.map (·.name) ∧ readMembers slots rest record = .ok record') ∨
      ∃ s ∈ slots, s.name = name ∧ s.isFilled record = false ∧ ∃ middle,
        s.fill record d = .ok middle ∧ readMembers slots rest middle = .ok record' := by
  rw [readMembers] at h
  -- The slot of the name is the one that is found, if there is one.
  cases hfind : slots.find? (·.name == name) with
  | none =>
    simp only [hfind] at h
    refine Or.inl ⟨by simpa using hfind, ?_⟩
    split at h
    · exact h
    · cases h
  | some s =>
    simp only [hfind] at h
    refine Or.inr ⟨s, List.mem_of_find?_eq_some hfind, by simpa using List.find?_some hfind, ?_⟩
    split at h
    · cases h
    · rename_i hempty
      obtain ⟨middle, hfill, hrest⟩ := bind_eq_ok.mp h
      exact ⟨by simpa using hempty, middle, hfill, hrest⟩

/-- A record that is read from a list has a member for each item, and if it is complete, an item for
each member. -/
theorem length_of_readItems {items : List Document} {closed full : Bool}
    (h : readItems closed slots items record = .ok (record', full)) :
    items.length ≤ slots.length ∧ (full = true → items.length = slots.length) := by
  -- By induction on the slots, of which each item uses up the first one.
  induction slots generalizing items record with
  | nil =>
    cases items with
    | nil => exact ⟨Nat.le_refl 0, fun _ => rfl⟩
    | cons item items => cases h
  | cons s slots ih =>
    cases items with
    | nil =>
      refine ⟨Nat.zero_le _, fun hfull => ?_⟩
      cases closed with
      | false => cases h
      | true =>
        obtain ⟨rfl, rfl⟩ := Prod.mk.inj (Except.ok.inj h)
        cases hfull
    | cons item items =>
      obtain ⟨middle, -, hrest⟩ := bind_eq_ok.mp h
      -- An item and its slot go together, so the lengths differ by the same amount as before.
      obtain ⟨hle, hfull⟩ := ih hrest
      have hlengths (hall : full = true) : items.length + 1 = slots.length + 1 :=
        congrArg (· + 1) (hfull hall)
      exact ⟨Nat.succ_le_succ hle, hlengths⟩

variable (hfill : ∀ s ∈ slots, ∀ before d after, P before → s.fill before d = .ok after → P after)

include hfill

theorem readMembers_invariant (hrecord : P record)
    (h : readMembers slots members record = .ok record') : P record' := by
  -- By induction on the members: one of an unknown name leaves the record as it is.
  induction members generalizing record with
  | nil =>
    cases h
    exact hrecord
  | cons member rest ih =>
    -- A name that is not readable ends the reading.
    obtain ⟨_ | name, d⟩ := member
    · cases h
    rcases readMembers_cons h with ⟨-, hrest⟩ | ⟨s, hs, -, -, middle, hmiddle, hrest⟩
    · exact ih hrecord hrest
    · exact ih (hfill s hs _ _ _ hrecord hmiddle) hrest

theorem readItems_invariant {items : List Document} {closed full : Bool} (hrecord : P record)
    (h : readItems closed slots items record = .ok (record', full)) : P record' := by
  induction slots generalizing items record with
  | nil =>
    cases items with
    | nil =>
      cases closed <;> cases h
      exact hrecord
    | cons item items => cases h
  | cons s slots ih =>
    -- Without an item the list is at its end, and the record is left as it is.
    cases items with
    | nil =>
      cases closed <;> cases h
      exact hrecord
    | cons item items =>
      obtain ⟨middle, hmiddle, hrest⟩ := bind_eq_ok.mp h
      have hfirst := hfill s List.mem_cons_self _ _ _ hrecord hmiddle
      exact ih (fun s hs => hfill s (List.mem_cons_of_mem _ hs)) hfirst hrest

end

/-- What holds at the start and is kept by every slot holds when the record is finished. -/
theorem exists_of_shape {r : Record σ α} {P : σ → Prop} {value : α} (hstart : P r.start)
    (hfill : ∀ s ∈ r.slots, ∀ before d after, P before → s.fill before d = .ok after → P after)
    (h : r.shape d = .ok value) :
    ∃ record, P record ∧ (r.finish record = some value ∨ r.finishShort record = some value) := by
  -- A record is an object or a list, and no other document is read at all.
  cases d with
  | object members closed =>
    obtain ⟨-, record, hread, hfinish⟩ := shape_object_eq_ok.mp h
    exact ⟨record, readMembers_invariant hfill hstart hread, .inl hfinish⟩
  | array items closed =>
    obtain ⟨record, full, hread, hfinish⟩ := shape_array_eq_ok.mp h
    refine ⟨record, readItems_invariant hfill hstart hread, ?_⟩
    cases full with
    | true => exact .inl hfinish
    | false => exact .inr hfinish
  | _ => cases h

/-! ### Places -/

/-- A record whose members have a place each, all of them read by one shape. The record that comes
as a short list ends like any other. -/
structure Places (r : Record σ α) (shape : Shape β) (seen : String → σ → Option β)
    (put : String → β → σ → σ) : Prop where
  /-- No two members have one name. -/
  nodup : (r.slots.map (·.name)).Nodup
  /-- All places are empty at the start. -/
  start : ∀ name ∈ r.slots.map (·.name), seen name r.start = none
  /-- A member has been read if its place is filled. -/
  isFilled : ∀ s ∈ r.slots, ∀ record, s.isFilled record = (seen s.name record).isSome
  /-- A member is read by the shape. -/
  fill : ∀ s ∈ r.slots, ∀ record d, s.fill record d = (shape d).map fun b => put s.name b record
  /-- What is put into a place is there, and the other places stay as they are. -/
  seen_put : ∀ s ∈ r.slots, ∀ name ∈ r.slots.map (·.name), ∀ b record,
    seen name (put s.name b record) = if name = s.name then some b else seen name record
  /-- There is nothing to a record but its places. -/
  ext : ∀ record record', (∀ name ∈ r.slots.map (·.name), seen name record = seen name record') →
    record = record'
  /-- Missing members at the end are like other missing ones. -/
  finishShort : r.finishShort = r.finish

namespace Places

variable {r : Record σ α} {seen : String → σ → Option β} {put : String → β → σ → σ}
  {record record' : σ}

/-- A slot is filled with what its shape makes of a document. -/
theorem fill_eq_ok (h : r.Places shape seen put) {s : Slot σ} (hs : s ∈ r.slots) :
    s.fill record d = .ok record' ↔ ∃ b, shape d = .ok b ∧ put s.name b record = record' := by
  rw [h.fill s hs, map_eq_ok]

theorem find?_name (h : r.Places shape seen put) {s : Slot σ} (hs : s ∈ r.slots) :
    r.slots.find? (·.name == s.name) = some s := by
  -- The slot is among those that are searched, and no other one has its name.
  cases hfind : r.slots.find? (·.name == s.name) with
  | none =>
    have hnone := List.find?_eq_none.mp hfind s hs
    simp at hnone
  | some other =>
    have hname : other.name = s.name := by simpa using List.find?_some hfind
    rw [List.inj_on_of_nodup_map h.nodup (List.mem_of_find?_eq_some hfind) hs hname]

/-- A member of a known name is read if its place is empty. -/
theorem readMembers_known (h : r.Places shape seen put) {s : Slot σ} (hs : s ∈ r.slots) :
    readMembers r.slots ((some s.name, d) :: members) record = .ok record' ↔
      seen s.name record = none ∧ ∃ b, shape d = .ok b ∧
        readMembers r.slots members (put s.name b record) = .ok record' := by
  rw [readMembers, h.find?_name hs]
  dsimp only
  rw [h.isFilled s hs]
  -- A place that is filled already makes the member a second one of its name.
  cases seen s.name record with
  | none => simp [bind_eq_ok, h.fill_eq_ok hs]
  | some b => simp

/-- A member of another name is skipped if it is JSON to its end. -/
theorem readMembers_unknown (hname : name ∉ r.slots.map (·.name)) :
    readMembers r.slots ((some name, d) :: members) record = .ok record' ↔
      d.isWhole = true ∧ readMembers r.slots members record = .ok record' := by
  have hfind : r.slots.find? (·.name == name) = none := by simpa using hname
  rw [readMembers, hfind]
  dsimp only
  -- Skipping a member means reading it to its end, which the whole ones allow.
  split_ifs with hwhole <;> simp [hwhole]

/-- What holds of all places behind a member that is put in is what holds of its own place, which is
filled, and of the other ones, which are as before. -/
theorem forall_seen_put (h : r.Places shape seen put) {s : Slot σ} (hs : s ∈ r.slots)
    {Q : String → Option β → Prop} :
    (∀ name ∈ r.slots.map (·.name), Q name (seen name (put s.name b record))) ↔
      Q s.name (some b) ∧
        ∀ name ∈ r.slots.map (·.name), name ≠ s.name → Q name (seen name record) := by
  constructor
  · intro hall
    -- The place of the slot has the new value, and all others have the old one.
    refine ⟨?_, fun name hname hne => ?_⟩
    · have hself := hall s.name (List.mem_map_of_mem hs)
      rwa [h.seen_put s hs s.name (List.mem_map_of_mem hs), if_pos rfl] at hself
    · have hother := hall name hname
      rwa [h.seen_put s hs name hname, if_neg hne] at hother
  · rintro ⟨hself, hothers⟩ name hname
    rw [h.seen_put s hs name hname]
    -- A name is the one of the slot or one of the others.
    split_ifs with hsame
    · exact hsame ▸ hself
    · exact hothers name hname hsame

/-- The first member of an object fills the place of its name, which has to be empty. -/
theorem forall_settles_cons (h : r.Places shape seen put) {s : Slot σ} (hs : s ∈ r.slots) :
    (∀ name ∈ r.slots.map (·.name),
        Settles shape name ((some s.name, d) :: rest) (seen name record) (seen name record')) ↔
      seen s.name record = none ∧ ∃ b, shape d = .ok b ∧ ∀ name ∈ r.slots.map (·.name),
        Settles shape name rest (seen name (put s.name b record)) (seen name record') := by
  simp only [h.forall_seen_put hs
    (Q := fun name before => Settles shape name rest before (seen name record'))]
  -- The place of the slot is filled once, and for the other names the member is a foreign one.
  constructor
  · intro hplaces
    obtain ⟨hempty, b, hb, hself⟩ := settles_cons_self.mp (hplaces s.name (List.mem_map_of_mem hs))
    exact ⟨hempty, b, hb, hself, fun name hname hne =>
      (settles_cons_of_ne hne).mp (hplaces name hname)⟩
  · rintro ⟨hempty, b, hb, hself, hothers⟩ name hname
    by_cases hsame : name = s.name
    · subst hsame
      exact settles_cons_self.mpr ⟨hempty, b, hb, hself⟩
    · exact (settles_cons_of_ne hsame).mpr (hothers name hname hsame)

/-- The members of an object are read if all names are readable, other members are whole, and each
place can be filled. -/
theorem readMembers_eq_ok (h : r.Places shape seen put) :
    readMembers r.slots members record = .ok record' ↔
      (∀ member ∈ members, ∃ name, member.1 = some name ∧
        (name ∉ r.slots.map (·.name) → member.2.isWhole = true)) ∧
      ∀ name ∈ r.slots.map (·.name),
        Settles shape name members (seen name record) (seen name record') := by
  induction members generalizing record with
  -- With no members left, the record is the one from before, as it is nothing but its places.
  | nil =>
    simp only [readMembers, Except.ok.injEq, List.not_mem_nil, false_imp_iff, implies_true,
      settles_nil, true_and]
    constructor
    · rintro rfl name -
      rfl
    · exact fun hseen => h.ext _ _ fun name hname => (hseen name hname).symm
  | cons member rest ih =>
    obtain ⟨_ | n, d⟩ := member
    · -- A name that cannot be read spoils the object.
      simp [readMembers]
    rw [List.forall_mem_cons]
    -- A member of a known name fills one place, and one of another name fills none.
    by_cases hknown : n ∈ r.slots.map (·.name)
    · obtain ⟨s, hs, rfl⟩ := List.mem_map.mp hknown
      simp only [h.readMembers_known hs, ih, h.forall_settles_cons hs]
      constructor
      · rintro ⟨hempty, b, hb, hclean, hplaces⟩
        exact ⟨⟨⟨s.name, rfl, fun hnot => absurd hknown hnot⟩, hclean⟩, hempty, b, hb, hplaces⟩
      · rintro ⟨⟨-, hclean⟩, hempty, b, hb, hplaces⟩
        exact ⟨hempty, b, hb, hclean, hplaces⟩
    · have hhead : (∃ name, some n = some name ∧
          (name ∉ r.slots.map (·.name) → d.isWhole = true)) ↔ d.isWhole = true := by
        -- Of an unknown name only this remains: the member has to be whole.
        constructor
        · rintro ⟨name, hname, hwhole⟩
          exact hwhole (Option.some.inj hname ▸ hknown)
        · exact fun hwhole => ⟨n, rfl, fun _ => hwhole⟩
      rw [readMembers_unknown hknown, ih, hhead, and_assoc]
      -- The places are untouched by it, each for the reason that its name is another one.
      refine and_congr_right' (and_congr_right' (forall₂_congr fun name hname => ?_))
      exact (settles_cons_of_ne (ne_of_mem_of_not_mem hname hknown)).symm

/-- Where no place is filled, nothing happens. -/
theorem forall_fills_none (h : r.Places shape seen put) :
    (∀ name ∈ r.slots.map (·.name), Fills shape none (seen name record) (seen name record')) ↔
      record' = record := by
  simp only [fills_none]
  constructor
  · exact h.ext _ _
  · rintro rfl name -
    rfl

/-- The first item of a list fills the first place, and no later item does. -/
theorem forall_fills_cons (h : r.Places shape seen put) {s : Slot σ} (hs : s ∈ r.slots)
    {names : List String} (hnew : s.name ∉ names) (item : Document) (items : List Document) :
    (∀ name ∈ r.slots.map (·.name),
        Fills shape (((s.name :: names).zip (item :: items)).lookup name) (seen name record)
          (seen name record')) ↔
      ∃ b, shape item = .ok b ∧ ∀ name ∈ r.slots.map (·.name),
        Fills shape ((names.zip items).lookup name) (seen name (put s.name b record))
          (seen name record') := by
  -- The names are distinct, so the first one is not found among the others.
  have hlast : (names.zip items).lookup s.name = none := by
    rw [List.lookup_eq_none_iff]
    rintro pair hpair
    have hne : s.name ≠ pair.1 := (ne_of_mem_of_not_mem (List.of_mem_zip hpair).1 hnew).symm
    simpa using hne
  have hother {name : String} (hne : name ≠ s.name) :
      ((s.name :: names).zip (item :: items)).lookup name = (names.zip items).lookup name := by
    rw [List.zip_cons_cons, List.lookup_cons, beq_false_of_ne hne]
  -- This splits the places into the one of the first slot and those of the others.
  simp only [h.forall_seen_put hs (Q := fun name before =>
      Fills shape ((names.zip items).lookup name) before (seen name record')),
    hlast, fills_none]
  constructor
  · intro hfills
    have hfirst := hfills s.name (List.mem_map_of_mem hs)
    rw [List.zip_cons_cons, List.lookup_cons_self] at hfirst
    obtain ⟨b, hb, hafter⟩ := fills_some.mp hfirst
    exact ⟨b, hb, hafter, fun name hname hne => hother hne ▸ hfills name hname⟩
  · rintro ⟨b, hb, hafter, hothers⟩ name hname
    -- Either the name is the first one, with the first item, or the rest has to say.
    by_cases hsame : name = s.name
    · subst hsame
      rw [List.zip_cons_cons, List.lookup_cons_self]
      exact fills_some.mpr ⟨b, hb, hafter⟩
    · rw [hother hsame]
      exact hothers name hname hsame

/-- The items of a list are read if there are no more of them than slots, and each place can be
filled that has an item. -/
theorem readItems_eq_ok (h : r.Places shape seen put) {closed full : Bool} {items : List Document}
    {slots : List (Slot σ)} (hslots : slots ⊆ r.slots) (hnodup : (slots.map (·.name)).Nodup) :
    readItems closed slots items record = .ok (record', full) ↔
      closed = true ∧ items.length ≤ slots.length ∧ full = decide (items.length = slots.length) ∧
        ∀ name ∈ r.slots.map (·.name),
          Fills shape (((slots.map (·.name)).zip items).lookup name) (seen name record)
            (seen name record') := by
  -- By induction on the slots, beside which the items go along.
  induction slots generalizing items record with
  | nil =>
    cases items with
    | nil =>
      simp only [List.map_nil, List.zip_nil_left, List.lookup_nil, h.forall_fills_none]
      cases closed <;> simp [readItems, eq_comm, and_comm]
    | cons item items => simp [readItems]
  | cons s slots ih =>
    cases items with
    | nil =>
      simp only [List.zip_nil_right, List.lookup_nil, h.forall_fills_none]
      cases closed <;> simp [readItems, eq_comm, and_comm]
    | cons item items =>
      obtain ⟨hs, hrest⟩ := List.cons_subset.mp hslots
      obtain ⟨hnew, hothers⟩ := List.nodup_cons.mp hnodup
      -- The first item goes into the first slot, and what is left is a shorter list of both.
      have hread : readItems closed (s :: slots) (item :: items) record = .ok (record', full) ↔
          ∃ b, shape item = .ok b ∧
            readItems closed slots items (put s.name b record) = .ok (record', full) := by
        rw [readItems]
        simp [bind_eq_ok, h.fill_eq_ok hs]
      rw [hread, List.map_cons, h.forall_fills_cons hs hnew]
      simp only [ih hrest hothers, List.length_cons, Nat.add_le_add_iff_right,
        Nat.add_right_cancel_iff]
      constructor
      · rintro ⟨b, hb, hclosed, hle, hfull, hfills⟩
        exact ⟨hclosed, hle, hfull, b, hb, hfills⟩
      · rintro ⟨hclosed, hle, hfull, b, hb, hfills⟩
        exact ⟨b, hb, hclosed, hle, hfull, hfills⟩

/-- A document is read if it is a record, each place is filled from its member, and the record can
be finished. -/
theorem shape_eq_ok (h : r.Places shape seen put) {value : α} :
    r.shape d = .ok value ↔ d.IsRecord (r.slots.map (·.name)) ∧
      ∃ record, (∀ name ∈ r.slots.map (·.name),
          Fills shape (d.member? (r.slots.map (·.name)) name) none (seen name record)) ∧
        r.finish record = some value := by
  -- An object fills its places by name and a list by position, and nothing else is a record.
  cases d with
  | object members closed =>
    rw [shape_object_eq_ok]
    simp only [h.readMembers_eq_ok, Document.IsRecord, Document.member?]
    constructor
    · rintro ⟨hclosed, record, ⟨hclean, hsettles⟩, hfinish⟩
      refine ⟨⟨hclosed, hclean, fun name hname => (hsettles name hname).once⟩, record, ?_, hfinish⟩
      -- All places are empty at the start, so what the members fill is what is filled in the end.
      intro name hname
      rw [← h.start name hname]
      exact (hsettles name hname).fills
    · rintro ⟨⟨hclosed, hclean, honce⟩, record, hfills, hfinish⟩
      refine ⟨hclosed, record, ⟨hclean, fun name hname => ?_⟩, hfinish⟩
      rw [h.start name hname]
      exact ⟨honce name hname, fun _ => rfl, hfills name hname⟩
  | array items closed =>
    rw [shape_array_eq_ok]
    simp only [h.readItems_eq_ok (List.Subset.refl _) h.nodup, h.finishShort, ite_self,
      Document.IsRecord, Document.member?, List.length_map]
    constructor
    · -- A short list ends like a full one here, so how many items there are does not matter.
      rintro ⟨record, full, ⟨hclosed, hle, -, hfills⟩, hfinish⟩
      refine ⟨⟨hclosed, hle⟩, record, fun name hname => ?_, hfinish⟩
      rw [← h.start name hname]
      exact hfills name hname
    · rintro ⟨⟨hclosed, hle⟩, record, hfills, hfinish⟩
      refine ⟨record, _, ⟨hclosed, hle, rfl, fun name hname => ?_⟩, hfinish⟩
      rw [h.start name hname]
      exact hfills name hname
  | null => simp [Record.shape, Document.IsRecord]
  | bool b => simp [Record.shape, Document.IsRecord]
  | number n => simp [Record.shape, Document.IsRecord]
  | text s => simp [Record.shape, Document.IsRecord]
  | deep container => simp [Record.shape, Document.IsRecord]
  | broken => simp [Record.shape, Document.IsRecord]

end Places

/-! ### Records with one member -/

section

variable {r : Record (Option β) α} {value : α} (name : String)
  (hslots : r.slots = [⟨name, Option.isSome, fun _ d => (shape d).map some⟩])
  (hstart : r.start = none) (hshort : r.finishShort = r.finish)

include hslots hstart hshort

theorem places_single : r.Places shape (fun _ record => record) (fun _ b _ => some b) where
  nodup := by rw [hslots]; exact List.nodup_singleton _
  start _ _ := hstart
  isFilled s hs _ := by
    rw [hslots, List.mem_singleton] at hs
    rw [hs]
  fill s hs _ _ := by
    rw [hslots, List.mem_singleton] at hs
    rw [hs]
  seen_put s hs name hname _ _ := by
    rw [hslots, List.mem_singleton] at hs
    rw [hslots, List.map_singleton, List.mem_singleton] at hname
    rw [hname, hs, if_pos rfl]
  ext _ _ hseen := hseen name (by rw [hslots]; exact List.mem_singleton_self _)
  finishShort := hshort

/-- A document is read as a record with one member if it is one, the member has its shape if it is
there, and the record can be finished. -/
theorem single_eq_ok : r.shape d = .ok value ↔ d.IsRecord [name] ∧
    ∃ record, Fills shape (d.member? [name] name) none record ∧ r.finish record = some value := by
  rw [(places_single name hslots hstart hshort).shape_eq_ok, hslots]
  simp only [List.map_singleton, List.mem_singleton, forall_eq]

end

theorem required_eq_ok {name : String} {shape : Shape α} {value : α} :
    (required name shape).shape d = .ok value ↔ d.IsRecord [name] ∧
      ∃ member, d.member? [name] name = some member ∧ shape member = .ok value := by
  rw [single_eq_ok name rfl rfl rfl]
  refine and_congr_right fun _ => ?_
  cases d.member? [name] name with
  | none => simp [fills_none, required]
  | some member => simp [fills_some, required]

theorem defaulted_eq_ok {name : String} {shape : Shape α} {value : Option α} :
    (defaulted name shape).shape d = .ok value ↔ d.IsRecord [name] ∧
      (d.member? [name] name = none ∧ value = none ∨
        ∃ member, d.member? [name] name = some member ∧ optional shape member = .ok value) := by
  rw [single_eq_ok name rfl rfl rfl]
  refine and_congr_right fun _ => ?_
  cases d.member? [name] name with
  | none => simp [fills_none, defaulted, eq_comm]
  | some member => simp [fills_some, defaulted]

end Record

/-! ### Other shapes -/

theorem text_eq_ok {text : String} : Shape.text d = .ok text ↔ d = .text (.ok text) := by
  cases d with
  | text s => cases s <;> simp [Shape.text, eq_comm]
  | _ => simp [Shape.text]

theorem optional_eq_ok {shape : Shape α} {value : Option α} :
    optional shape d = .ok value ↔
      d = .null ∧ value = none ∨ d ≠ .null ∧ ∃ a, shape d = .ok a ∧ value = some a := by
  cases d with
  | null => simp [optional, eq_comm]
  | _ => simp [optional, map_eq_ok, @eq_comm _ value]

theorem list_eq_ok {shape : Shape α} {values : List α} :
    list shape d = .ok values ↔ ∃ items, d = .array items true ∧
      List.Forall₂ (fun item a => shape item = .ok a) items values := by
  cases d with
  | array items closed =>
    show (items.mapM shape).bind (fun read => if closed then .ok read else .error .malformed) =
      .ok values ↔ _
    cases closed <;> simp [bind_eq_ok, mapM_eq_ok]
  | _ => simp [list]

end Shape

end Roster.Json
