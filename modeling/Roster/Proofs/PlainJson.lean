import Mathlib.Data.List.Induction
import Mathlib.Data.List.Nodup
import Roster.Json.Embedded

/-!
# Values that are read as they are

A value that is kept has the texts that are embedded in it replaced by their values, and one value
per name in each of its objects (`asRead?`). A value is plain if there is nothing to be done: the
names of each of its objects are distinct, and none of its objects stands for an embedded text.

* `Plain.asRead?_eq` — a plain value is read as it is.
* `plain_of_asRead?` — whatever a value is read as is plain, so reading it once more changes nothing.

An object stands for an embedded text by its first name, and reading leaves the first name of an
object that it keeps. That is what carries the second statement through objects, and through the
texts that are embedded in embedded texts.
-/

namespace Roster.Json

variable {known : List String} {members rest kept : List (String × Json)} {name other : String}
  {value : Json}

/-! ### The value under a name -/

/-- A later member counts before an earlier one of its name. -/
theorem get?_append (members rest : List (String × Json)) (name : String) :
    (object (members ++ rest)).get? name =
      ((object rest).get? name).or ((object members).get? name) := by
  simp only [get?, Json.members, List.reverse_append, List.find?_append, Option.map_or]

@[simp] theorem get?_singleton (other : String) (value : Json) (name : String) :
    (object [(other, value)]).get? name = if other = name then some value else none := by
  by_cases h : other = name
  · simp [get?, Json.members, h]
  · simp [get?, Json.members, h, beq_eq_false_iff_ne.mpr h]

theorem get?_cons (name other : String) (value : Json) (rest : List (String × Json)) :
    (object ((other, value) :: rest)).get? name =
      ((object rest).get? name).or (if other = name then some value else none) := by
  rw [← List.singleton_append, get?_append, get?_singleton]

theorem get?_concat (name other : String) (value : Json) (members : List (String × Json)) :
    (object (members ++ [(other, value)])).get? name =
      if other = name then some value else (object members).get? name := by
  rw [get?_append, get?_singleton]
  split <;> rfl

theorem mem_of_get? (h : (object members).get? name = some value) : (name, value) ∈ members := by
  obtain ⟨⟨found, other⟩, hfound, rfl⟩ := Option.map_eq_some_iff.mp h
  obtain rfl : found = name := eq_of_beq (List.find?_some hfound :)
  exact List.mem_reverse.mp (List.mem_of_find?_eq_some hfound)

theorem get?_eq_none_iff : (object members).get? name = none ↔ name ∉ members.map (·.1) := by
  simp only [get?, Json.members, Option.map_eq_none_iff, List.find?_eq_none, List.mem_reverse,
    beq_iff_eq, List.mem_map, not_exists, not_and]

/-- Where names are distinct, the value under a name is the one of the member. -/
theorem get?_eq_some_iff (hnames : (members.map (·.1)).Nodup) :
    (object members).get? name = some value ↔ (name, value) ∈ members := by
  refine ⟨mem_of_get?, fun hmem => ?_⟩
  cases hget : (object members).get? name with
  | none => exact absurd (List.mem_map_of_mem hmem) (get?_eq_none_iff.mp hget)
  | some found =>
    have heq : (name, found) = (name, value) :=
      List.inj_on_of_nodup_map hnames (mem_of_get? hget) hmem rfl
    rw [(Prod.mk.inj heq).2]

/-- A name that stands once has the value that it stands with. -/
theorem get?_of_only? {found : Option Json} (h : only? members name = some found) :
    (object members).get? name = found := by
  rw [only?] at h
  -- The last member of a name is the first one from the end, and filtering leaves it or nothing.
  rw [get?, Json.members, ← List.head?_filter, List.filter_reverse]
  split at h
  · rename_i hnone
    rw [hnone]
    exact Option.some.inj h
  · rename_i other value hone
    rw [hone]
    exact Option.some.inj h
  · cases h

/-- Where names are distinct, none of them stands more than once. -/
theorem only?_of_nodup (hnames : (members.map (·.1)).Nodup) (name : String) :
    only? members name = some ((object members).get? name) := by
  -- Among distinct names the filter keeps at most one member, so the third case does not arise.
  have hone : (members.filter (·.1 == name)).length ≤ 1 := by
    rw [← List.countP_eq_length_filter]
    have hcount := List.nodup_iff_count_le_one.mp hnames name
    rwa [List.count, List.countP_map] at hcount
  rw [get?, Json.members, ← List.head?_filter, List.filter_reverse, only?]
  match hfilter : members.filter (·.1 == name) with
  | [] =>
    rw [hfilter]
    rfl
  | [member] =>
    rw [hfilter]
    rfl
  | _ :: _ :: _ =>
    rw [hfilter] at hone
    exact absurd hone (by simp)

theorem get?_filter (hname : name ∉ known) :
    (object (members.filter fun m => !known.contains m.1)).get? name =
      (object members).get? name := by
  -- By induction on the members: one that goes has a known name, which is not the one asked for.
  induction members with
  | nil => rfl
  | cons member rest ih =>
    obtain ⟨other, value⟩ := member
    by_cases hother : other ∈ known
    · have hne : other ≠ name := fun heq => hname (heq ▸ hother)
      rw [List.filter_cons_of_neg (by simpa using hother), get?_cons, if_neg hne, Option.or_none, ih]
    · rw [List.filter_cons_of_pos (by simpa using hother), get?_cons, get?_cons, ih]

/-! ### One value per name -/

theorem names_put (other : String) (value : Json) (kept : List (String × Json)) :
    (put other value kept).map (·.1) =
      if other ∈ kept.map (·.1) then kept.map (·.1) else kept.map (·.1) ++ [other] := by
  induction kept with
  | nil => rfl
  | cons member rest ih =>
    obtain ⟨first, old⟩ := member
    by_cases h : first = other
    · simp [put, h]
    · rw [put, if_neg h, List.map_cons, ih]
      -- The name may be the first one, be among the others, or be new and go to the end.
      by_cases hrest : other ∈ rest.map (·.1)
      · have hmem : other ∈ ((first, old) :: rest).map (·.1) := List.mem_cons_of_mem _ hrest
        rw [if_pos hrest, if_pos hmem, List.map_cons]
      · have hnot : other ∉ ((first, old) :: rest).map (·.1) :=
          fun hmem => (List.mem_cons.mp hmem).elim (fun heq => h heq.symm) hrest
        rw [if_neg hrest, if_neg hnot, List.map_cons, List.cons_append]

theorem put_of_notMem (h : other ∉ kept.map (·.1)) :
    put other value kept = kept ++ [(other, value)] := by
  induction kept with
  | nil => rfl
  | cons member rest ih =>
    obtain ⟨first, old⟩ := member
    rw [List.map_cons, List.mem_cons, not_or] at h
    rw [put, if_neg (Ne.symm h.1), ih h.2, List.cons_append]

/-- A value that is put under a name is found there. -/
theorem get?_put (hnames : (kept.map (·.1)).Nodup) :
    (object (put other value kept)).get? name =
      if other = name then some value else (object kept).get? name := by
  induction kept with
  | nil => exact get?_concat name other value []
  | cons member rest ih =>
    obtain ⟨first, old⟩ := member
    obtain ⟨hfirst, hrest⟩ := List.nodup_cons.mp hnames
    rw [put]
    split
    · -- The value takes the place of the first one, whose name stands nowhere behind it.
      rename_i heq
      subst heq
      rw [get?_cons, get?_cons]
      split
      · rename_i heq
        subst heq
        rw [get?_eq_none_iff.mpr hfirst, Option.none_or]
      · rfl
    · -- It is put among the others, and the first member counts only where they have none.
      rename_i hne
      rw [get?_cons, get?_cons, ih hrest]
      split
      · rename_i heq
        subst heq
        rw [Option.some_or]
      · rfl

theorem lastOfEach_concat (members : List (String × Json)) (other : String) (value : Json) :
    lastOfEach (members ++ [(other, value)]) = put other value (lastOfEach members) := by
  rw [lastOfEach, List.foldl_append]
  rfl

theorem nodup_lastOfEach (members : List (String × Json)) :
    ((lastOfEach members).map (·.1)).Nodup := by
  -- By induction from the end, since the row is filled by putting one member after another.
  induction members using List.reverseRecOn with
  | nil => exact List.nodup_nil
  | append_singleton members member ih =>
    rw [lastOfEach_concat, names_put]
    split
    · exact ih
    · rename_i hnew
      exact List.nodup_append_comm.mp (List.nodup_cons.mpr ⟨hnew, ih⟩)

/-- The last value of each name is kept. -/
theorem get?_lastOfEach (members : List (String × Json)) (name : String) :
    (object (lastOfEach members)).get? name = (object members).get? name := by
  induction members using List.reverseRecOn with
  | nil => rfl
  | append_singleton members member ih =>
    rw [lastOfEach_concat, get?_put (nodup_lastOfEach members), get?_concat, ih]

theorem mem_of_mem_lastOfEach {member : String × Json} (h : member ∈ lastOfEach members) :
    member ∈ members := by
  have hget := (get?_eq_some_iff (nodup_lastOfEach members)).mpr h
  rw [get?_lastOfEach] at hget
  exact mem_of_get? hget

/-- The first name stays the first one. -/
theorem head?_lastOfEach (members : List (String × Json)) :
    ((lastOfEach members).map (·.1)).head? = (members.map (·.1)).head? := by
  induction members using List.reverseRecOn with
  | nil => rfl
  | append_singleton members member ih =>
    rw [lastOfEach_concat, names_put, List.map_append, List.head?_append, ← ih]
    split
    · -- The name was there already, so some first name was.
      rename_i hmem
      obtain ⟨first, names, hnames⟩ := List.exists_cons_of_ne_nil (List.ne_nil_of_mem hmem)
      rw [hnames, List.head?_cons, Option.some_or]
    · -- The name is a new one and goes behind all others, or is the first of all.
      rw [List.head?_append]
      rfl

theorem lastOfEach_of_nodup (h : (members.map (·.1)).Nodup) : lastOfEach members = members := by
  induction members using List.reverseRecOn with
  | nil => rfl
  | append_singleton members member ih =>
    -- Kept so far are all members before the last one, and its name is not among them.
    rw [List.map_append, List.nodup_append_comm] at h
    obtain ⟨hnew, hrest⟩ := List.nodup_cons.mp h
    rw [lastOfEach_concat, ih hrest, put_of_notMem hnew]

theorem settleItems_eq_map (items : List Json) : settleItems items = items.map settle := by
  induction items with
  | nil => rfl
  | cons item rest ih => rw [settleItems, ih, List.map_cons]

theorem settleMembers_eq_map (members : List (String × Json)) :
    settleMembers members = members.map fun m => (m.1, settle m.2) := by
  induction members with
  | nil => rfl
  | cons member rest ih => rw [settleMembers, ih, List.map_cons]

@[simp] theorem names_settleMembers (members : List (String × Json)) :
    (settleMembers members).map (·.1) = members.map (·.1) := by
  rw [settleMembers_eq_map, List.map_map]
  rfl

theorem get?_settleMembers (members : List (String × Json)) (name : String) :
    (object (settleMembers members)).get? name = ((object members).get? name).map settle := by
  induction members with
  | nil => rfl
  | cons member rest ih =>
    -- Settling a value leaves the name that it stands under.
    rw [settleMembers, get?_cons, get?_cons, ih, Option.map_or]
    split <;> rfl

theorem settleMembers_self (h : ∀ m ∈ members, settle m.2 = m.2) :
    settleMembers members = members := by
  have hsame : ∀ m ∈ members, (m.1, settle m.2) = id m := fun m hm => Prod.ext rfl (h m hm)
  rw [settleMembers_eq_map, List.map_congr_left hsame, List.map_id]

/-! ### Plain values -/

/-- A value is plain: all names of an object are distinct, at every depth, and no object stands for
an embedded text. -/
inductive Plain : Json → Prop where
  /-- The absent value. -/
  | null : Plain .null
  /-- A truth value. -/
  | bool (value : Bool) : Plain (.bool value)
  /-- A number. -/
  | number (value : Number) : Plain (.number value)
  /-- A text. -/
  | string (value : String) : Plain (.string value)
  /-- A list of plain values. -/
  | array {items : List Json} (hitems : ∀ item ∈ items, Plain item) : Plain (.array items)
  /-- Plain values under distinct names, of which the first does not announce a text. -/
  | object {members : List (String × Json)} (hnames : (members.map (·.1)).Nodup)
      (hfirst : (members.map (·.1)).head? ≠ some embeddedName)
      (hmembers : ∀ m ∈ members, Plain m.2) : Plain (.object members)

/-- What a value is read as where it is kept: its embedded texts are read, and of several values
under one name the last one counts. -/
def asRead? (j : Json) : Option Json :=
  (expand? j).map settle

section

variable {read : String → Option Json}

/-- An object that does not stand for an embedded text is read member by member. -/
theorem expandWith_object_cons (hname : name ≠ embeddedName) (value : Json)
    (rest : List (String × Json)) :
    expandWith read (object ((name, value) :: rest)) =
      (expandMembers read ((name, value) :: rest)).map object := by
  -- Without a first name that announces a text, a row is expanded like the members of any object.
  unfold expandWith
  rw [if_neg hname, expandMembers]
  cases expandWith read value <;> cases expandMembers read rest <;> rfl

/-- An object that stands for an embedded text has its value. -/
theorem exists_read_of_expandWith {j : Json}
    (h : expandWith read (object ((embeddedName, value) :: rest)) = some j) :
    ∃ s, read s = some j := by
  unfold expandWith at h
  rw [if_pos rfl] at h
  split at h
  · exact ⟨_, h⟩
  · cases h

theorem expandItems_self {items : List Json}
    (h : ∀ item ∈ items, expandWith read item = some item) : expandItems read items = some items := by
  induction items with
  | nil => rfl
  | cons item rest ih =>
    obtain ⟨hitem, hrest⟩ := List.forall_mem_cons.mp h
    rw [expandItems, hitem, ih hrest]
    rfl

theorem expandMembers_self (h : ∀ m ∈ members, expandWith read m.2 = some m.2) :
    expandMembers read members = some members := by
  induction members with
  | nil => rfl
  | cons member rest ih =>
    obtain ⟨hmember, hrest⟩ := List.forall_mem_cons.mp h
    rw [expandMembers, hmember, ih hrest]
    rfl

/-- No text is embedded in a plain value. -/
theorem Plain.expandWith_eq {j : Json} (h : Plain j) (read : String → Option Json) :
    expandWith read j = some j := by
  induction h with
  | null => rfl
  | bool value => rfl
  | number value => rfl
  | string value => rfl
  | array _ ih => rw [expandWith, expandItems_self ih]; rfl
  -- Only the first name of an object could announce a text, and in a plain one it does not.
  | @object members _ hfirst _ ih =>
    cases members with
    | nil => rfl
    | cons member rest =>
      have hname : member.1 ≠ embeddedName := fun heq => hfirst (congrArg some heq)
      rw [expandWith_object_cons hname, expandMembers_self ih]
      rfl

/-- The names of a plain value are distinct already. -/
theorem Plain.settle_eq {j : Json} (h : Plain j) : settle j = j := by
  induction h with
  | null => rfl
  | bool value => rfl
  | number value => rfl
  | string value => rfl
  | @array items _ ih =>
    rw [settle, settleItems_eq_map, List.map_congr_left ih, List.map_id']
  | object hnames _ _ ih => rw [settle, settleMembers_self ih, lastOfEach_of_nodup hnames]

/-- A plain value is read as it is. -/
theorem Plain.asRead?_eq {j : Json} (h : Plain j) : j.asRead? = some j := by
  rw [asRead?, expand?, h.expandWith_eq, Option.map_some, h.settle_eq]

/-! ### What values are read as -/

theorem expandMembers_cons {member : String × Json} {expanded : List (String × Json)} :
    expandMembers read (member :: rest) = some expanded ↔
      ∃ value others, expandWith read member.2 = some value ∧
        expandMembers read rest = some others ∧ expanded = (member.1, value) :: others := by
  obtain ⟨name, value⟩ := member
  rw [expandMembers]
  cases expandWith read value <;> cases expandMembers read rest <;> simp [eq_comm]

theorem expandItems_cons {item : Json} {items expanded : List Json} :
    expandItems read (item :: items) = some expanded ↔
      ∃ value others, expandWith read item = some value ∧ expandItems read items = some others ∧
        expanded = value :: others := by
  rw [expandItems]
  cases expandWith read item <;> cases expandItems read items <;> simp [eq_comm]

theorem names_expandMembers {expanded : List (String × Json)}
    (h : expandMembers read members = some expanded) :
    expanded.map (·.1) = members.map (·.1) := by
  induction members generalizing expanded with
  | nil =>
    cases h
    rfl
  | cons member rest ih =>
    obtain ⟨value, others, -, hothers, rfl⟩ := expandMembers_cons.mp h
    rw [List.map_cons, List.map_cons, ih hothers]

theorem get?_expandMembers {expanded : List (String × Json)}
    (h : expandMembers read members = some expanded) (name : String) :
    ((object members).get? name).map (expandWith read) =
      ((object expanded).get? name).map some := by
  induction members generalizing expanded with
  | nil =>
    cases h
    rfl
  | cons member rest ih =>
    obtain ⟨value, others, hvalue, hothers, rfl⟩ := expandMembers_cons.mp h
    -- The later members count first on both sides, so what is left is the first member.
    rw [get?_cons, get?_cons, Option.map_or, Option.map_or, ih hothers]
    split
    · rw [Option.map_some, Option.map_some, hvalue]
    · rfl

end

mutual

/-- If the texts that are embedded in a value are read as plain values, so is the value. -/
theorem plain_of_expandWith {read : String → Option Json}
    (hread : ∀ s value, read s = some value → Plain (settle value)) (j : Json) {value : Json}
    (h : expandWith read j = some value) : Plain (settle value) := by
  match j with
  | .null => cases h; exact .null
  | .bool b => cases h; exact .bool b
  | .number n => cases h; exact .number n
  | .string s => cases h; exact .string s
  | .array items =>
    rw [expandWith, Option.map_eq_some_iff] at h
    obtain ⟨expanded, hexpanded, rfl⟩ := h
    rw [settle, settleItems_eq_map]
    -- The items of a list are plain one by one.
    exact .array (List.forall_mem_map.mpr (plain_of_expandItems hread items hexpanded))
  | .object [] =>
    cases h
    exact .object List.nodup_nil nofun nofun
  | .object ((name, first) :: rest) =>
    by_cases hname : name = embeddedName
    · -- The value is the one of an embedded text.
      subst hname
      obtain ⟨s, hs⟩ := exists_read_of_expandWith h
      exact hread s value hs
    · rw [expandWith_object_cons hname, Option.map_eq_some_iff] at h
      obtain ⟨expanded, hexpanded, rfl⟩ := h
      -- Every member is plain once it is settled, and the last one of each name is among them.
      have hplain := plain_of_expandMembers hread ((name, first) :: rest) hexpanded
      have hnames := names_expandMembers hexpanded
      refine .object (nodup_lastOfEach _) ?_ fun m hm => ?_
      · -- The first name is the one that the object had.
        rw [head?_lastOfEach, names_settleMembers, hnames]
        exact fun heq => hname (Option.some.inj heq)
      · have hmem := mem_of_mem_lastOfEach hm
        rw [settleMembers_eq_map] at hmem
        obtain ⟨source, hsource, rfl⟩ := List.mem_map.mp hmem
        exact hplain source hsource

theorem plain_of_expandItems {read : String → Option Json}
    (hread : ∀ s value, read s = some value → Plain (settle value)) (items : List Json)
    {expanded : List Json} (h : expandItems read items = some expanded) :
    ∀ item ∈ expanded, Plain (settle item) := by
  match items with
  | [] => cases h; exact nofun
  | item :: rest =>
    obtain ⟨value, others, hvalue, hothers, rfl⟩ := expandItems_cons.mp h
    exact List.forall_mem_cons.mpr
      ⟨plain_of_expandWith hread item hvalue, plain_of_expandItems hread rest hothers⟩

theorem plain_of_expandMembers {read : String → Option Json}
    (hread : ∀ s value, read s = some value → Plain (settle value))
    (members : List (String × Json)) {expanded : List (String × Json)}
    (h : expandMembers read members = some expanded) : ∀ m ∈ expanded, Plain (settle m.2) := by
  match members with
  | [] => cases h; exact nofun
  | (name, value) :: rest =>
    obtain ⟨read, others, hvalue, hothers, rfl⟩ := expandMembers_cons.mp h
    exact List.forall_mem_cons.mpr
      ⟨plain_of_expandWith hread value hvalue, plain_of_expandMembers hread rest hothers⟩

end

/-- The value of an embedded text is plain, at whatever depth texts lie inside each other. -/
theorem plain_of_ofEmbeddedText? {s : String} (h : ofEmbeddedText? s = some value) :
    Plain (settle value) := by
  -- By induction on the depth to which texts are read, for any value at that depth.
  have hdepth (depth : Nat) : ∀ s value, ofEmbedded? depth s = some value →
      Plain (settle value) := by
    induction depth with
    | zero => rintro s value ⟨⟩
    | succ depth ih =>
      intro s value h
      obtain ⟨j, -, hj⟩ := Option.bind_eq_some_iff.mp h
      exact plain_of_expandWith ih j hj
  exact hdepth _ s value h

/-- What a value is read as is plain. -/
theorem plain_of_asRead? {j : Json} (h : j.asRead? = some value) : Plain value := by
  obtain ⟨expanded, hexpanded, rfl⟩ := Option.map_eq_some_iff.mp h
  exact plain_of_expandWith (fun s value => plain_of_ofEmbeddedText?) j hexpanded

end Roster.Json
