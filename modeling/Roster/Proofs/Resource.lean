import Roster.Http.Resource

/-!
# The paths of members

The paths under which the members of a space are changed are `/v1/collaborators/{space}` and
`/v1/collaborators/{space}/{identity}`, where the parameters are texts without slashes that are not
empty. They are the paths of the two resources that know the methods `POST` and `DELETE`
(`Resource.ofPath?_collaborators`, `Resource.ofPath?_collaborator`).

A path is read by its parts between slashes. It begins with a slash, so it is the row of its parts
with a slash in front of each (`ofPath?_eq_some`).
-/

namespace Roster.Http

/-! ### Parts between slashes -/

/-- A text that can stand for a parameter of a path. -/
def IsParameter (s : String) : Prop :=
  s ≠ "" ∧ '/' ∉ s.toList

theorem notMem_of_mem_splitOn {c : Char} {s part : List Char} (h : part ∈ s.splitOn c) :
    c ∉ part := by
  induction s generalizing part with
  | nil =>
    obtain rfl : part = [] := by simpa using h
    exact List.not_mem_nil
  | cons d s ih =>
    rw [List.splitOn_cons_eq_if_modifyHead] at h
    by_cases hd : d = c
    · -- The separator starts a new part, so the part is the empty one in front or one of the rest.
      rcases (by simpa [hd] using h : part = [] ∨ part ∈ s.splitOn c) with rfl | h
      · exact List.not_mem_nil
      · exact ih h
    · rw [if_neg (by simpa using hd)] at h
      -- The first part grows by a character that is not the separator.
      cases hparts : s.splitOn c with
      | nil => exact absurd hparts (List.splitOn_ne_nil c s)
      | cons first others =>
        rw [hparts, List.modifyHead_cons, List.mem_cons] at h
        rcases h with rfl | h
        · rw [List.mem_cons, not_or]
          exact ⟨Ne.symm hd, ih (hparts ▸ List.mem_cons_self)⟩
        · exact ih (hparts ▸ List.mem_cons_of_mem _ h)

theorem cons_intercalate (c : Char) {parts : List (List Char)} (hne : parts ≠ []) :
    c :: [c].intercalate parts = parts.flatMap (c :: ·) := by
  induction parts with
  | nil => exact absurd rfl hne
  | cons part rest ih =>
    -- A single text is joined with nothing.
    cases rest with
    | nil => simp [List.intercalate]
    | cons next rest =>
      have hrest : c :: [c].intercalate (next :: rest) = (next :: rest).flatMap (c :: ·) :=
        ih (List.cons_ne_nil _ _)
      rw [List.flatMap_cons, ← hrest]
      simp [List.intercalate]

/-- A row of texts is what a text is split into if there are texts, none of them holds the
separator, and the text is that row. -/
theorem splitOn_eq_iff {c : Char} {s : List Char} {parts : List (List Char)} :
    s.splitOn c = parts ↔
      parts ≠ [] ∧ (∀ part ∈ parts, c ∉ part) ∧ c :: s = parts.flatMap (c :: ·) := by
  constructor
  · rintro rfl
    refine ⟨List.splitOn_ne_nil c s, fun part hpart => notMem_of_mem_splitOn hpart, ?_⟩
    rw [← cons_intercalate c (List.splitOn_ne_nil c s), List.intercalate_splitOn]
  · rintro ⟨hne, hfree, hs⟩
    -- With a separator in front as well, joining is a plain row, which determines the parts.
    rw [← cons_intercalate c hne] at hs
    rw [List.tail_eq_of_cons_eq hs, List.splitOn_intercalate c hfree hne]

namespace Resource

/-- The parts of the path of a resource. -/
def parts : Resource → List String
  | health => ["health"]
  | description => ["v1", "api-docs", "openapi.json"]
  | documentation => ["v1", "swagger"]
  | collaborators space => ["v1", "collaborators", space]
  | collaborator space identity => ["v1", "collaborators", space, identity]

/-- The parameters of the path of a resource. -/
def parameters : Resource → List String
  | collaborators space => [space]
  | collaborator space identity => [space, identity]
  | _ => []

theorem parts_ne_nil (r : Resource) : r.parts ≠ [] := by
  cases r <;> exact List.cons_ne_nil _ _

/-- The parts that are the same for all spaces and identities hold no slash. -/
theorem forall_parts_iff (r : Resource) :
    (∀ part ∈ r.parts, '/' ∉ part.toList) ↔ ∀ s ∈ r.parameters, '/' ∉ s.toList := by
  cases r <;> simp [parts, parameters]

theorem ofParts?_eq_some {texts : List String} {r : Resource} :
    ofParts? texts = some r ↔ texts = r.parts ∧ ∀ s ∈ r.parameters, s ≠ "" := by
  constructor
  · -- Each resource has its own row of texts; the last case is that of all others.
    intro h
    unfold ofParts? at h
    split at h
    case h_4 space =>
      split at h
      · rename_i hne
        obtain rfl := Option.some.inj h
        exact ⟨rfl, by simpa [parameters] using hne⟩
      · cases h
    case h_5 space identity =>
      split at h
      · rename_i hne
        obtain rfl := Option.some.inj h
        exact ⟨rfl, by simpa [parameters] using hne⟩
      · cases h
    case h_6 => cases h
    all_goals
      obtain rfl := Option.some.inj h
      exact ⟨rfl, by simp [parameters]⟩
  · rintro ⟨rfl, hne⟩
    -- Read from left to right, the row of each resource is its own pattern.
    cases r <;> simp_all [parts, parameters, ofParts?]

/-- The path of a resource is the row of its parts with a slash in front of each. -/
theorem ofPath?_eq_some {path : String} {r : Resource} :
    ofPath? path = some r ↔ (∀ s ∈ r.parameters, IsParameter s) ∧
      path.toList = r.parts.flatMap fun part => '/' :: part.toList := by
  have hsplit (s : List Char) : (s.splitOn '/').map String.ofList = r.parts ↔
      (∀ part ∈ r.parts, '/' ∉ part.toList) ∧
        '/' :: s = r.parts.flatMap fun part => '/' :: part.toList := by
    -- Texts and rows of characters correspond to each other.
    have hmap : (s.splitOn '/').map String.ofList = r.parts ↔
        s.splitOn '/' = r.parts.map String.toList := by
      constructor
      · intro h
        simp [← h, Function.comp_def]
      · intro h
        simp [h, Function.comp_def]
    rw [hmap, splitOn_eq_iff]
    simp [List.flatMap_map, r.parts_ne_nil]
  have hread (s : List Char) : ofParts? ((s.splitOn '/').map String.ofList) = some r ↔
      (∀ s ∈ r.parameters, IsParameter s) ∧
        '/' :: s = r.parts.flatMap fun part => '/' :: part.toList := by
    -- A parameter is not empty and holds no slash, so it stands for exactly one part.
    rw [ofParts?_eq_some, hsplit, r.forall_parts_iff]
    constructor
    · rintro ⟨⟨hfree, hparts⟩, hne⟩
      exact ⟨fun s hs => ⟨hne s hs, hfree s hs⟩, hparts⟩
    · rintro ⟨hparameters, hparts⟩
      exact ⟨⟨fun s hs => (hparameters s hs).2, hparts⟩, fun s hs => (hparameters s hs).1⟩
  rw [ofPath?]
  split
  · rename_i s hpath
    rw [hread, hpath]
  · -- A path without a slash at its front is split at nothing, and each resource starts with one.
    rename_i hpath
    refine iff_of_false (Option.some_ne_none r).symm ?_
    rintro ⟨-, hparts⟩
    obtain ⟨first, rest, hcons⟩ := List.exists_cons_of_ne_nil r.parts_ne_nil
    rw [hcons, List.flatMap_cons, List.cons_append] at hparts
    exact hpath _ hparts

/-- The path of the members of a space. -/
theorem ofPath?_collaborators {path space : String} :
    ofPath? path = some (.collaborators space) ↔
      IsParameter space ∧ path = "/v1/collaborators/" ++ space := by
  rw [ofPath?_eq_some, ← String.toList_inj]
  simp [parts, parameters]

/-- The path of a member of a space. -/
theorem ofPath?_collaborator {path space identity : String} :
    ofPath? path = some (.collaborator space identity) ↔
      (IsParameter space ∧ IsParameter identity) ∧
        path = "/v1/collaborators/" ++ space ++ "/" ++ identity := by
  rw [ofPath?_eq_some, ← String.toList_inj]
  simp [parts, parameters]

end Resource

/-- A path under which the members of a space are changed. -/
def NamesMembers (path : String) : Prop :=
  ∃ space, IsParameter space ∧ (path = "/v1/collaborators/" ++ space ∨
    ∃ identity, IsParameter identity ∧ path = "/v1/collaborators/" ++ space ++ "/" ++ identity)

end Roster.Http
