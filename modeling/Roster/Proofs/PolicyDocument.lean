import Mathlib.Data.List.Nodup
import Roster.Proofs.PlainJson
import Roster.Proofs.Policy

/-!
# Policies as documents

The policy server keeps more in a policy than the service knows. What it keeps there comes back to
it when the service writes the policy, whatever was done to the member list in between.

* `Policy.ofJson?_eq_some` — what a policy that is read from a value has of it.
* `Policy.ofJson?_toJson` — a policy that is written reads back as itself, if its other members have
  distinct names that the service does not know (`Policy.Sound`). A policy that was read is such a
  one, and stays one when its member list is changed.
* `Policy.attributes_survive` — the written value next to the one that was read, after any row of
  edits of the member list.

A record is written as its known members followed by the others. The lemmas on `front ++ attributes`
say what reading finds in such a row, for the policy and for its part with the member list alike.
-/

namespace Roster

open Json

namespace Policy

variable {known : List String} {members front attributes : List (String × Json)} {name : String}

/-! ### Other members -/

/-- Members that a record with some known names can keep: their names are distinct and not among the
known ones, and their values are plain. -/
structure Foreign (known : List String) (attributes : List (String × Json)) : Prop where
  /-- Each name stands once. -/
  names : (attributes.map (·.1)).Nodup
  /-- None of the names is known. -/
  unknown : ∀ m ∈ attributes, m.1 ∉ known
  /-- Reading the values once more changes nothing. -/
  plain : ∀ m ∈ attributes, m.2.Plain

theorem Foreign.get?_eq_none (h : Foreign known attributes) (hname : name ∈ known) :
    (object attributes).get? name = none := by
  refine get?_eq_none_iff.mpr fun hmem => ?_
  obtain ⟨m, hm, rfl⟩ := List.mem_map.mp hmem
  exact h.unknown m hm hname

/-- What is kept of the other members: each name with what its last value is read as. -/
theorem others?_eq_some (h : others? known members = some attributes) :
    Foreign known attributes ∧ ∀ name ∉ known,
      ((object members).get? name).map asRead? = ((object attributes).get? name).map some := by
  obtain ⟨expanded, hexpanded, rfl⟩ := Option.map_eq_some_iff.mp h
  have hdistinct := nodup_lastOfEach (settleMembers expanded)
  have hunknown : ∀ m ∈ lastOfEach (settleMembers expanded), m.1 ∉ known := by
    intro m hm hknown
    -- A name that is kept is one of the names that were left after the known ones went.
    have hmem := List.mem_map_of_mem (f := (·.1)) (mem_of_mem_lastOfEach hm)
    rw [names_settleMembers, names_expandMembers hexpanded] at hmem
    obtain ⟨source, hsource, hsame⟩ := List.mem_map.mp hmem
    have hfresh := (List.mem_filter.mp hsource).2
    rw [hsame, List.contains_iff_mem.mpr hknown] at hfresh
    cases hfresh
  have hvalues : ∀ name ∉ known, ((object members).get? name).map asRead? =
      ((object (lastOfEach (settleMembers expanded))).get? name).map some := by
    intro name hname
    rw [get?_lastOfEach, get?_settleMembers, ← get?_filter hname]
    have hvalue := congrArg (Option.map (Option.map settle)) (get?_expandMembers hexpanded name)
    rw [Option.map_map, Option.map_map] at hvalue
    rw [Option.map_map]
    exact hvalue
  refine ⟨⟨hdistinct, hunknown, fun m hm => ?_⟩, hvalues⟩
  -- What is kept is what some value is read as.
  -- A member that was kept has a source under the same name, and its value was read from there.
  have hread := hvalues m.1 (hunknown m hm)
  rw [(get?_eq_some_iff hdistinct).mpr hm] at hread
  obtain ⟨source, -, hsource⟩ := Option.map_eq_some_iff.mp hread
  exact plain_of_asRead? hsource

/-! ### Records: known members, then the others -/

section

variable (hfront : (front.map (·.1)).Nodup) (hknown : ∀ m ∈ front, m.1 ∈ known)
  (hforeign : Foreign known attributes)

include hfront hknown hforeign

theorem nodup_record : ((front ++ attributes).map (·.1)).Nodup := by
  rw [List.map_append, List.nodup_append]
  refine ⟨hfront, hforeign.names, ?_⟩
  -- Unknown names and known ones are never the same.
  rintro _ hfirst _ hsecond rfl
  obtain ⟨m, hm, hname⟩ := List.mem_map.mp hfirst
  obtain ⟨other, hother, hsame⟩ := List.mem_map.mp hsecond
  exact hforeign.unknown other hother (hsame ▸ hname ▸ hknown m hm)

/-- Under a known name, a record has what its known members have. -/
theorem only?_record (hname : name ∈ known) :
    only? (front ++ attributes) name = some ((object front).get? name) := by
  rw [only?_of_nodup (nodup_record hfront hknown hforeign), get?_append,
    hforeign.get?_eq_none hname, Option.none_or]

end

theorem get?_record_known (hforeign : Foreign known attributes) (hname : name ∈ known) :
    (object (front ++ attributes)).get? name = (object front).get? name := by
  rw [get?_append, hforeign.get?_eq_none hname, Option.none_or]

theorem get?_record_unknown (hknown : ∀ m ∈ front, m.1 ∈ known) (hname : name ∉ known) :
    (object (front ++ attributes)).get? name = (object attributes).get? name := by
  -- The known members have nothing under a name that is not known.
  have hnone : (object front).get? name = none := by
    refine get?_eq_none_iff.mpr fun hmem => ?_
    obtain ⟨m, hm, rfl⟩ := List.mem_map.mp hmem
    exact hname (hknown m hm)
  rw [get?_append, hnone, Option.or_none]

/-- The other members of a record are read as they are. -/
theorem others?_record (hknown : ∀ m ∈ front, m.1 ∈ known) (hforeign : Foreign known attributes) :
    others? known (front ++ attributes) = some attributes := by
  -- The known members are filtered out, and none of the others is.
  have hfilter : (front ++ attributes).filter (fun m => !known.contains m.1) = attributes := by
    rw [List.filter_append, List.filter_eq_nil_iff.mpr fun m hm => by simpa using hknown m hm,
      List.filter_eq_self.mpr fun m hm => by simpa using hforeign.unknown m hm, List.nil_append]
  rw [others?, hfilter, expandMembers_self fun m hm => (hforeign.plain m hm).expandWith_eq _,
    Option.map_some, settleMembers_self fun m hm => (hforeign.plain m hm).settle_eq,
    lastOfEach_of_nodup hforeign.names]

/-! ### Known members -/

theorem text?_eq_some {s : String} :
    text? members name = some s ↔
      ∃ found, only? members name = some found ∧ found.getD (.string "") = .string s := by
  rw [text?]
  cases only? members name with
  | none => simp
  | some found =>
    -- A missing text is the empty text; of what can stand there, texts alone are read.
    match found with
    | none => simp [eq_comm]
    | some (.string other) => simp
    | some .null | some (.bool _) | some (.number _) | some (.array _) | some (.object _) => simp

theorem id?_eq_some {id : Option String} :
    id? members = some id ↔ ∃ found, only? members "id" = some found ∧
      (found = id.map .string ∨ (id = none ∧ found = some .null)) := by
  rw [id?]
  cases only? members "id" with
  | none => simp
  | some found =>
    -- Null is read as a missing identifier, and any other value that is no text is refused.
    match found, id with
    | none, none | none, some _ => simp
    | some (.string other), none | some (.string other), some _ => simp
    | some .null, none | some .null, some _ => simp
    | some (.bool _), none | some (.number _), none | some (.array _), none
    | some (.object _), none => simp
    | some (.bool _), some _ | some (.number _), some _ | some (.array _), some _
    | some (.object _), some _ => simp

/-- The part with the member list is an object, and an empty one if it is missing. -/
theorem config?_eq_some {c : PolicyConfig} :
    config? members = some c ↔ ∃ found inner, only? members "config" = some found ∧
      found.getD (.object []) = .object inner ∧ text? inner "users" = some c.users ∧
      others? configNames inner = some c.attributes := by
  obtain ⟨users, attributes⟩ := c
  rw [config?]
  cases only? members "config" with
  | none => simp
  | some found =>
    -- A missing part is read as an empty object, in which both readings find nothing.
    match found with
    | none =>
      have husers : text? [] "users" = some "" := rfl
      have hothers : others? configNames [] = some [] := rfl
      simp [husers, hothers]
    | some (.object inner) =>
      cases husers : text? inner "users" <;> cases hothers : others? configNames inner <;>
        simp [husers, hothers]
    | some .null | some (.bool _) | some (.number _) | some (.array _) | some (.string _) => simp

/-! ### Policies that were read -/

theorem ofJson?_eq_some {j : Json} {p : Policy} :
    ofJson? j = some p ↔ ∃ members, j = .object members ∧ id? members = some p.id ∧
      text? members "name" = some p.name ∧ text? members "type" = some p.type ∧
      text? members "logic" = some p.logic ∧
      text? members "decisionStrategy" = some p.decisionStrategy ∧
      config? members = some p.config ∧ others? names members = some p.attributes := by
  obtain ⟨id, name, type, logic, decisionStrategy, config, attributes⟩ := p
  cases j with
  | object members =>
    simp only [ofJson?, Option.bind_eq_bind, Option.bind_eq_some_iff, Option.pure_def,
      Option.some.injEq, Policy.mk.injEq, object.injEq]
    -- The record of what was read is taken apart and put together, field by field.
    constructor
    · rintro ⟨_, hid, _, hname, _, htype, _, hlogic, _, hstrategy, _, hconfig, _, hothers, rfl, rfl,
        rfl, rfl, rfl, rfl, rfl⟩
      exact ⟨members, rfl, hid, hname, htype, hlogic, hstrategy, hconfig, hothers⟩
    · rintro ⟨_, rfl, hid, hname, htype, hlogic, hstrategy, hconfig, hothers⟩
      exact ⟨_, hid, _, hname, _, htype, _, hlogic, _, hstrategy, _, hconfig, _, hothers, rfl, rfl,
        rfl, rfl, rfl, rfl, rfl⟩
  | null | bool _ | number _ | string _ | array _ => simp [ofJson?]

/-- The members that the service does not know are such as it can keep, in the policy and in its
part with the member list. -/
structure Sound (p : Policy) : Prop where
  /-- The other members of the policy. -/
  policy : Foreign names p.attributes
  /-- The other members of the part with the member list. -/
  config : Foreign configNames p.config.attributes

theorem sound_of_ofJson? {j : Json} {p : Policy} (h : ofJson? j = some p) : p.Sound := by
  obtain ⟨members, -, -, -, -, -, -, hconfig, hothers⟩ := ofJson?_eq_some.mp h
  obtain ⟨_, inner, -, -, -, hinner⟩ := config?_eq_some.mp hconfig
  exact ⟨(others?_eq_some hothers).1, (others?_eq_some hinner).1⟩

theorem Sound.withUsers {p : Policy} (h : p.Sound) (users : String) : (p.withUsers users).Sound :=
  ⟨h.policy, h.config⟩

/-! ### Policies that are written -/

/-- The members of a policy that the service knows, as they are written. -/
def knownMembers (p : Policy) : List (String × Json) :=
  p.id.toList.map (fun id => ("id", Json.string id)) ++
    [("name", .string p.name), ("type", .string p.type), ("logic", .string p.logic),
      ("decisionStrategy", .string p.decisionStrategy), ("config", configJson p.config)]

/-- The member of the part with the member list that the service knows, as it is written. -/
def knownConfigMembers (c : PolicyConfig) : List (String × Json) :=
  [("users", .string c.users)]

theorem toJson_eq (p : Policy) : p.toJson = .object (p.knownMembers ++ p.attributes) := rfl

theorem configJson_eq (c : PolicyConfig) :
    configJson c = .object (knownConfigMembers c ++ c.attributes) := rfl

theorem names_knownMembers (p : Policy) :
    p.knownMembers.map (·.1) = p.id.toList.map (fun _ => "id") ++ names.tail := by
  rw [knownMembers, List.map_append, List.map_map]
  rfl

theorem nodup_knownMembers (p : Policy) : (p.knownMembers.map (·.1)).Nodup := by
  rw [names_knownMembers]
  -- The identifier is left out when there is none, and otherwise stands in front of the others.
  cases p.id with
  | none => decide
  | some id =>
    show names.Nodup
    decide

theorem mem_names_of_mem_knownMembers (p : Policy) : ∀ m ∈ p.knownMembers, m.1 ∈ names := by
  intro m hm
  have hname := List.mem_map_of_mem (f := (·.1)) hm
  rw [names_knownMembers, List.mem_append] at hname
  rcases hname with hid | htail
  · obtain ⟨_, -, heq⟩ := List.mem_map.mp hid
    exact heq ▸ List.mem_cons_self
  · exact List.mem_of_mem_tail htail

theorem nodup_knownConfigMembers (c : PolicyConfig) : ((knownConfigMembers c).map (·.1)).Nodup :=
  List.nodup_singleton _

theorem mem_configNames_of_mem_knownConfigMembers (c : PolicyConfig) :
    ∀ m ∈ knownConfigMembers c, m.1 ∈ configNames := by
  rintro _ (_ | ⟨_, ⟨⟩⟩)
  exact List.mem_cons_self

theorem get?_knownMembers (p : Policy) :
    (object p.knownMembers).get? "id" = p.id.map .string ∧
      (object p.knownMembers).get? "name" = some (.string p.name) ∧
      (object p.knownMembers).get? "type" = some (.string p.type) ∧
      (object p.knownMembers).get? "logic" = some (.string p.logic) ∧
      (object p.knownMembers).get? "decisionStrategy" = some (.string p.decisionStrategy) ∧
      (object p.knownMembers).get? "config" = some (configJson p.config) := by
  rw [knownMembers]
  cases p.id with
  | none => exact ⟨rfl, rfl, rfl, rfl, rfl, rfl⟩
  | some id => exact ⟨rfl, rfl, rfl, rfl, rfl, rfl⟩

/-- The part with the member list is written as one known member and the others. -/
theorem config?_configJson {c : PolicyConfig} (h : Foreign configNames c.attributes)
    (hconfig : only? members "config" = some (some (configJson c))) :
    config? members = some c := by
  have hknown := mem_configNames_of_mem_knownConfigMembers c
  have husers : only? (knownConfigMembers c ++ c.attributes) "users" =
      some (some (.string c.users)) :=
    only?_record (nodup_knownConfigMembers c) hknown h List.mem_cons_self
  exact config?_eq_some.mpr ⟨_, _, hconfig, rfl, text?_eq_some.mpr ⟨_, husers, rfl⟩,
    others?_record hknown h⟩

/-- A policy that is written reads back as itself. -/
theorem ofJson?_toJson {p : Policy} (h : p.Sound) : ofJson? p.toJson = some p := by
  have hknown := mem_names_of_mem_knownMembers p
  obtain ⟨hid, hname, htype, hlogic, hstrategy, hconfig⟩ := get?_knownMembers p
  -- None of the other members has a known name, so each known name is found once, among the known
  -- members.
  have honly {name : String} (hmem : name ∈ names) {found : Option Json}
      (hfound : (object p.knownMembers).get? name = found) :
      only? (p.knownMembers ++ p.attributes) name = some found :=
    hfound ▸ only?_record (nodup_knownMembers p) hknown h.policy hmem
  refine ofJson?_eq_some.mpr ⟨_, toJson_eq p, ?_, ?_, ?_, ?_, ?_, ?_, ?_⟩
  · exact id?_eq_some.mpr ⟨_, honly (by decide) hid, .inl rfl⟩
  · exact text?_eq_some.mpr ⟨_, honly (by decide) hname, rfl⟩
  · exact text?_eq_some.mpr ⟨_, honly (by decide) htype, rfl⟩
  · exact text?_eq_some.mpr ⟨_, honly (by decide) hlogic, rfl⟩
  · exact text?_eq_some.mpr ⟨_, honly (by decide) hstrategy, rfl⟩
  · exact config?_configJson h.config (honly (by decide) hconfig)
  · exact others?_record hknown h.policy

/-! ### Edits of the member list -/

/-- An edit of a policy's member list. -/
inductive Edit where
  /-- A change by one identity, which fails if the list cannot be read. -/
  | change (c : Change) (id : Uuid)
  /-- Another list in its place. -/
  | assign (ids : List Uuid)

/-- A policy after an edit; one that fails leaves it as it is. -/
def Edit.perform : Edit → Policy → Policy
  | change c id, p =>
    match c.apply id p with
    | .ok (q, _) => q
    | .error _ => p
  | assign ids, p => p.withMembers ids

/-- A policy after a row of edits. -/
def edited (edits : List Edit) (p : Policy) : Policy :=
  edits.foldl (fun p edit => edit.perform p) p

/-- An edit changes the text of the list and nothing else. -/
theorem Edit.exists_perform_eq (edit : Edit) (p : Policy) :
    ∃ users, edit.perform p = p.withUsers users := by
  cases edit with
  | change c id =>
    rw [perform]
    cases happly : c.apply id p with
    | error e => exact ⟨_, p.withUsers_self.symm⟩
    | ok result =>
      obtain ⟨-, -, -, hrest⟩ := Change.apply_eq_ok happly
      exact hrest
  | assign ids => exact ⟨_, rfl⟩

theorem edited_cons (edit : Edit) (edits : List Edit) (p : Policy) :
    p.edited (edit :: edits) = (edit.perform p).edited edits := rfl

theorem exists_edited_eq (edits : List Edit) (p : Policy) :
    ∃ users, p.edited edits = p.withUsers users := by
  -- No edit leaves the text of the list; each one replaces the text that the edits before it left.
  induction edits generalizing p with
  | nil => exact ⟨_, p.withUsers_self.symm⟩
  | cons edit rest ih =>
    obtain ⟨first, hfirst⟩ := edit.exists_perform_eq p
    obtain ⟨last, hlast⟩ := ih (edit.perform p)
    exact ⟨last, by rw [edited_cons, hlast, hfirst, withUsers_withUsers]⟩

/-- An edit that makes a difference to a list that can be read. -/
theorem Edit.perform_change_of_matters {c : Change} {id : Uuid} {ids : List Uuid} {p : Policy}
    (hids : p.members = .ok ids) (hmatters : c.matters id ids = true) :
    Edit.perform (.change c id) p = p.withMembers (c.members id ids) := by
  rw [perform, Change.apply, hids, Except.map, if_pos hmatters]

/-- A list that cannot be read is not changed. -/
theorem Edit.perform_change_of_invalid {c : Change} {id : Uuid} {e : MemberList.Invalid}
    {p : Policy} (hinvalid : p.members = .error e) : Edit.perform (.change c id) p = p := by
  rw [perform, Change.apply, hinvalid, Except.map]

/-! ### What comes back to the server -/

/-- Whether a value is a text. -/
def isText : Json → Bool
  | .string _ => true
  | _ => false

/-- The names of the texts that the service knows in a policy and leaves alone. -/
def textNames : List String := ["name", "type", "logic", "decisionStrategy"]

/-- The names that a policy has of its own, apart from what else the server keeps there. -/
def fields : List String := ["id", "name", "type", "logic", "decisionStrategy", "config"]

/-- The names that the part with the member list has of its own. -/
def configFields : List String := ["users"]

theorem names_eq_fields : names = fields := rfl

theorem configNames_eq_fields : configNames = configFields := rfl

/-- The part of a policy's value with the member list, which is an empty object if it is missing. -/
def configOf (j : Json) : Json :=
  (j.get? "config").getD (.object [])

/-- Under a name that the service knows, the value of a policy has what is written under it. -/
theorem get?_toJson {p : Policy} (h : p.Sound) (hname : name ∈ names) :
    p.toJson.get? name = (object p.knownMembers).get? name :=
  get?_record_known h.policy hname

theorem configOf_toJson {p : Policy} (h : p.Sound) : configOf p.toJson = configJson p.config := by
  obtain ⟨-, -, -, -, -, hconfig⟩ := get?_knownMembers p
  rw [configOf, get?_toJson h (by decide), hconfig, Option.getD_some]

/-- The members of a record that the service does not know, before and after: none of them comes or
goes, and each has what its value is read as. For a plain value that is the value itself. -/
structure Survives (known : List String) (before after : Json) : Prop where
  /-- The other names are the same. -/
  present : ∀ name ∉ known, (after.get? name).isSome = (before.get? name).isSome
  /-- Plain values are the same. -/
  plain : ∀ name ∉ known, ∀ value, before.get? name = some value → value.Plain →
    after.get? name = some value
  /-- All values are what they are read as. -/
  read : ∀ name ∉ known, ∀ value, before.get? name = some value →
    after.get? name = value.asRead?

/-- The value of a policy before and after edits of its member list. -/
structure Rewritten (before after : Json) : Prop where
  /-- The members of the policy that the service does not know survive. -/
  others : Survives fields before after
  /-- The members of the part with the member list that the service does not know survive. -/
  configOthers : Survives configFields (configOf before) (configOf after)
  /-- The texts are the same, where a missing one is empty. -/
  texts : ∀ name ∈ textNames, after.get? name = some ((before.get? name).getD (.string ""))
  /-- There is an identifier if there was one that is a text, the same one. -/
  id : after.get? "id" = (before.get? "id").filter isText
  /-- No name stands twice. -/
  distinct : (after.members.map (·.1)).Nodup
  /-- No name stands twice in the part with the member list. -/
  configDistinct : ((configOf after).members.map (·.1)).Nodup

/-- The other members of a record survive if it is written with what was kept of them. -/
theorem survives_record (hothers : others? known members = some attributes)
    (hknown : ∀ m ∈ front, m.1 ∈ known) :
    Survives known (.object members) (.object (front ++ attributes)) := by
  obtain ⟨hforeign, hvalues⟩ := others?_eq_some hothers
  have hread : ∀ name ∉ known, ∀ value, (object members).get? name = some value →
      (object (front ++ attributes)).get? name = value.asRead? := by
    -- What is unknown is looked up among the others only, where it has what it is read as.
    intro name hname value hvalue
    have hsame := hvalues name hname
    rw [hvalue, Option.map_some] at hsame
    rw [get?_record_unknown hknown hname]
    cases hget : (object attributes).get? name with
    | none => rw [hget] at hsame; cases hsame
    | some kept => rw [hget] at hsame; exact (Option.some.inj hsame).symm
  -- Whether it is there, and a plain value, are read off that equation.
  refine ⟨fun name hname => ?_, fun name hname value hvalue hplain => ?_, hread⟩
  · rw [get?_record_unknown hknown hname, ← Option.isSome_map (f := some), ← hvalues name hname,
      Option.isSome_map]
  · rw [hread name hname value hvalue, hplain.asRead?_eq]

/-- The text under a name that was read is what is written under it. -/
theorem getD_of_text? {s : String} (h : text? members name = some s) :
    ((object members).get? name).getD (.string "") = .string s := by
  obtain ⟨found, hfound, hs⟩ := text?_eq_some.mp h
  rw [get?_of_only? hfound, hs]

theorem filter_isText_of_id? {id : Option String} (h : id? members = some id) :
    ((object members).get? "id").filter isText = id.map .string := by
  obtain ⟨found, hfound, hid⟩ := id?_eq_some.mp h
  rw [get?_of_only? hfound]
  -- Null is no text, and is read as a missing identifier.
  rcases hid with rfl | ⟨rfl, rfl⟩
  · cases id <;> rfl
  · rfl

/-- Writing a policy that was read, with another text for its member list. -/
theorem rewritten_withUsers {j : Json} {p : Policy} (h : ofJson? j = some p) (users : String) :
    Rewritten j (p.withUsers users).toJson := by
  have hsound := (sound_of_ofJson? h).withUsers users
  obtain ⟨members, rfl, hid, hname, htype, hlogic, hstrategy, hconfig, hothers⟩ :=
    ofJson?_eq_some.mp h
  obtain ⟨found, inner, hfound, hinner, -, hinnerOthers⟩ := config?_eq_some.mp hconfig
  obtain ⟨hid', hname', htype', hlogic', hstrategy', -⟩ := get?_knownMembers (p.withUsers users)
  have hknown := mem_names_of_mem_knownMembers (p.withUsers users)
  have hconfigKnown := mem_configNames_of_mem_knownConfigMembers (p.withUsers users).config
  have hget {name : String} (hmem : name ∈ names) {value : Option Json}
      (hvalue : (object (p.withUsers users).knownMembers).get? name = value) :
      (p.withUsers users).toJson.get? name = value :=
    hvalue ▸ get?_toJson hsound hmem
  -- One goal for each field of the structure.
  refine ⟨names_eq_fields ▸ survives_record hothers hknown, ?_, ?_, ?_, ?_, ?_⟩
  · rw [configOf, get?_of_only? hfound, hinner, configOf_toJson hsound]
    exact configNames_eq_fields ▸ survives_record hinnerOthers hconfigKnown
  · simp only [textNames, List.forall_mem_cons]
    rw [getD_of_text? hname, getD_of_text? htype, getD_of_text? hlogic, getD_of_text? hstrategy]
    exact ⟨hget (by decide) hname', hget (by decide) htype', hget (by decide) hlogic',
      hget (by decide) hstrategy', nofun⟩
  · -- A null in place of the identifier is left out when the policy is written.
    rw [filter_isText_of_id? hid]
    exact hget (by decide) hid'
  · exact nodup_record (nodup_knownMembers _) hknown hsound.policy
  · rw [configOf_toJson hsound]
    exact nodup_record (nodup_knownConfigMembers _) hconfigKnown hsound.config

/-- What the policy server gets back. The value of a policy that was read, written after any row of
edits of the member list, has all that the service does not know as it was, and the texts and the
identifier that it knows; no name is added to it that is not one that the service knows, and no name
stands twice. It reads back as the edited policy, none of whose other members has a known name. -/
theorem attributes_survive {j : Json} {p : Policy} (h : ofJson? j = some p) (edits : List Edit) :
    Rewritten j (p.edited edits).toJson ∧
      (configOf (p.edited edits).toJson).get? "users" =
        some (.string (p.edited edits).config.users) ∧
      ofJson? (p.edited edits).toJson = some (p.edited edits) ∧
      (∀ m ∈ (p.edited edits).attributes, m.1 ∉ fields) ∧
      ∀ m ∈ (p.edited edits).config.attributes, m.1 ∉ configFields := by
  -- All edits together come to another text for the member list, and the rest is about that one
  -- text.
  obtain ⟨users, hedited⟩ := exists_edited_eq edits p
  have hsound := (sound_of_ofJson? h).withUsers users
  rw [hedited]
  refine ⟨rewritten_withUsers h users, ?_, ofJson?_toJson hsound,
    names_eq_fields ▸ hsound.policy.unknown, configNames_eq_fields ▸ hsound.config.unknown⟩
  rw [configOf_toJson hsound, configJson_eq, get?_record_known hsound.config List.mem_cons_self]
  rfl

/-- A policy with an unreadable member list, without an identifier, and with members at both levels
that the service does not know. -/
def describedPolicy : Json :=
  .object [("id", .null), ("name", .string "space-policy"),
    ("description", .object [("text", .string "members"), ("weights", .array [.int 3, .null])]),
    ("logic", .string "POSITIVE"),
    ("config", .object [("roles", .string "[]"), ("users", .string "[garbage]")])]

/-- An identity is added to the members of the described policy, in vain until another list stands
in the place of the one that cannot be read. -/
theorem description_survives_edits :
    let one : Uuid := ⟨List.replicate 32 1, rfl⟩
    let two : Uuid := ⟨List.replicate 32 2, rfl⟩
    let p : Policy :=
      { id := none, name := "space-policy", type := "", logic := "POSITIVE", decisionStrategy := ""
        config := ⟨"[garbage]", [("roles", .string "[]")]⟩
        attributes := [("description",
          .object [("text", .string "members"), ("weights", .array [.int 3, .null])])] }
    let written := p.edited [.change .add two, .assign [one], .change .add two]
    ofJson? describedPolicy = some p ∧ written.members = .ok [one, two] ∧
      Rewritten describedPolicy written.toJson ∧ ofJson? written.toJson = some written := by
  intro one two p written
  -- The description is plain, so it is read without change.
  have hread : ofJson? describedPolicy = some p := by rfl
  have hinvalid : p.members = .error ⟨"garbage"⟩ := by decide +kernel
  have hnew : Change.add.matters two [one] = true := by decide
  have hassigned : (Edit.perform (.assign [one]) p).members = .ok [one] := members_withMembers _ p
  have hwritten : written.members = .ok [one, two] := by
    unfold written
    rw [edited_cons, Edit.perform_change_of_invalid hinvalid, edited_cons, edited_cons,
      Edit.perform_change_of_matters hassigned hnew]
    exact members_withMembers _ _
  obtain ⟨hrewritten, -, hback, -⟩ := attributes_survive hread
    [.change .add two, .assign [one], .change .add two]
  exact ⟨hread, hwritten, hrewritten, hback⟩

end Policy

end Roster
