import Roster.Http.Resource
import Roster.Proofs.PlainJson
import Roster.Proofs.Window
import Roster.Service.Listing

/-!
# The text of a link

A link is the path of a list with the two numbers of its range in the query. When it is read as the
target of a request, the page that the target asks for is the request for the range
(`Http.Target.page?_parse_link`). So what a link names can be told from its text alone
(`Http.namedRange?`), and a client that follows links has nothing else to go by.

The links of a listing are the texts that stand in the JSON it is sent as
(`Service.Listing.link?`). There is one of a kind where there is a range of that kind
(`Service.Listing.link?_eq`).
-/

namespace Roster

namespace Text

/-- A character that a query holds as it is. -/
def IsBare (c : Char) : Prop :=
  c.toNat < 0x80 ∧ c ≠ '%' ∧ c ≠ '&' ∧ c ≠ '+' ∧ c ≠ '#'

instance (c : Char) : Decidable (IsBare c) :=
  inferInstanceAs (Decidable (_ ∧ _))

/-- The byte of an ASCII character. -/
def byteOf (c : Char) : UInt8 :=
  c.toNat.toUInt8

theorem toNat_byteOf {c : Char} (h : c.toNat < 0x80) : (byteOf c).toNat = c.toNat := by
  rw [byteOf, Nat.toUInt8_eq, UInt8.toNat_ofNat_of_lt' (by rw [UInt8.size]; omega)]

theorem byteOf_inj {c d : Char} (hc : c.toNat < 0x80) (hd : d.toNat < 0x80)
    (h : byteOf c = byteOf d) : c = d := by
  have hnat : c.toNat = d.toNat := by
    rw [← toNat_byteOf hc, ← toNat_byteOf hd, h]
  rw [← Char.ofNat_toNat c, hnat, Char.ofNat_toNat]

theorem utf8Chars_of_ascii {s : List Char} (h : ∀ c ∈ s, c.toNat < 0x80) :
    utf8Chars s = s.map byteOf := by
  induction s with
  | nil => rfl
  | cons c s ih =>
    obtain ⟨hc, hs⟩ := List.forall_mem_cons.mp h
    -- An ASCII character is encoded as the one byte with its number.
    have hone : String.utf8EncodeChar c = [byteOf c] := by
      rw [String.utf8EncodeChar]
      exact if_pos (Nat.le_of_lt_succ hc)
    rw [utf8Chars, List.flatMap_cons, hone, List.map_cons, ← ih hs]
    rfl

theorem characters_of_ascii {s : List Char} (h : ∀ c ∈ s, c.toNat < 0x80) :
    characters (s.map byteOf) = s.map some := by
  -- The characters read so far are held in reverse, so the statement is about any of them.
  have hrun (read : List (Option Char)) :
      Pending.between.run read (s.map byteOf) = read.reverse ++ s.map some := by
    induction s generalizing read with
    | nil => exact (List.append_nil _).symm
    | cons c s ih =>
      obtain ⟨hc, hs⟩ := List.forall_mem_cons.mp h
      have hstep : Pending.between.step (byteOf c) = ([some c], .between) := by
        rw [Pending.step, Pending.start, toNat_byteOf hc, if_pos hc, Char.ofNat_toNat]
      rw [List.map_cons, Pending.run, hstep, ih hs, List.reverse_append, List.reverse_singleton,
        List.reverse_singleton, List.append_assoc]
      rfl
  exact hrun []

theorem percentDecode_of_notMem {bytes : Bytes} (h : 0x25 ∉ bytes) :
    percentDecode bytes = bytes := by
  induction bytes with
  | nil => rfl
  | cons b bytes ih =>
    rw [List.mem_cons, not_or] at h
    -- The first byte starts no escape, so the reader keeps it and goes on.
    rw [percentDecode, ih h.2]
    rintro a b' rest hb hbytes
    exact h.1 hb.symm

/-- A text that holds nothing to be decoded is decoded to itself. -/
theorem formDecode_bare {s : List Char} (h : ∀ c ∈ s, IsBare c) :
    formDecode (s.map byteOf) = String.ofList s := by
  have hascii : ∀ c ∈ s, c.toNat < 0x80 := fun c hc => (h c hc).1
  -- There is no plus sign that would be read as a blank, and no percent sign that would start an
  -- escape.
  have hplus : (s.map byteOf).map (fun b => if b == 0x2B then 0x20 else b) = s.map byteOf := by
    rw [List.map_map]
    refine List.map_congr_left fun c hc => ?_
    have hne : byteOf c ≠ byteOf '+' := fun heq =>
      (h c hc).2.2.2.1 (byteOf_inj (hascii c hc) (by decide) heq)
    exact if_neg fun heq => hne (eq_of_beq heq)
  have hpercent : 0x25 ∉ s.map byteOf := by
    rintro hmem
    obtain ⟨c, hc, heq⟩ := List.mem_map.mp hmem
    exact (h c hc).2.1 (byteOf_inj (hascii c hc) (by decide) heq)
  -- Every byte is a character of its own, so nothing is replaced.
  have hread : (s.map some).map (fun c => c.getD replacement) = s := by
    rw [List.map_map]
    exact List.map_id s
  rw [formDecode, hplus, percentDecode_of_notMem hpercent, ofUtf8Lossy, characters_of_ascii hascii,
    hread]

/-- A parameter of a query is read as its name and value. -/
theorem formDecode_parameter {name value : List Char} (hname : ∀ c ∈ name, IsBare c)
    (hvalue : ∀ c ∈ value, IsBare c) (hequals : '=' ∉ name) :
    let bytes := (name ++ '=' :: value).map byteOf
    formDecode (bytes.takeWhile (· ≠ 0x3D)) = String.ofList name ∧
      formDecode ((bytes.dropWhile (· ≠ 0x3D)).drop 1) = String.ofList value := by
  intro bytes
  have hbytes : bytes = name.map byteOf ++ 0x3D :: value.map byteOf := List.map_append
  -- The name has no equals sign, so it is what stands in front of the first one.
  have hkept : ∀ b ∈ name.map byteOf, decide (b ≠ 0x3D) = true := by
    intro b hb
    obtain ⟨c, hc, rfl⟩ := List.mem_map.mp hb
    refine decide_eq_true fun heq => hequals ?_
    rwa [← byteOf_inj (hname c hc).1 (show '='.toNat < 0x80 by decide) heq]
  rw [hbytes, List.takeWhile_append_of_pos hkept, List.dropWhile_append_of_pos hkept,
    List.takeWhile_cons_of_neg (by decide), List.dropWhile_cons_of_neg (by decide),
    List.append_nil, List.drop_one, List.tail_cons]
  exact ⟨formDecode_bare hname, formDecode_bare hvalue⟩

/-- A query with two parameters is read as their names and values. -/
theorem readFormPairs_pair {name value name' value' : List Char} (hname : ∀ c ∈ name, IsBare c)
    (hvalue : ∀ c ∈ value, IsBare c) (hname' : ∀ c ∈ name', IsBare c)
    (hvalue' : ∀ c ∈ value', IsBare c) (hequals : '=' ∉ name) (hequals' : '=' ∉ name') :
    readFormPairs (utf8Chars ((name ++ '=' :: value) ++ '&' :: (name' ++ '=' :: value'))) =
      [(String.ofList name, String.ofList value), (String.ofList name', String.ofList value')] := by
  -- Each part is ASCII and has no ampersand, which is all that splitting the row asks for.
  have hpart {n v : List Char} (hn : ∀ c ∈ n, IsBare c) (hv : ∀ c ∈ v, IsBare c) :
      ∀ c ∈ n ++ '=' :: v, c.toNat < 0x80 ∧ c ≠ '&' := by
    refine List.forall_mem_append.mpr ⟨fun c hc => ⟨(hn c hc).1, (hn c hc).2.2.1⟩, ?_⟩
    exact List.forall_mem_cons.mpr ⟨by decide, fun c hc => ⟨(hv c hc).1, (hv c hc).2.2.1⟩⟩
  have hfirst := hpart hname hvalue
  have hsecond := hpart hname' hvalue'
  obtain ⟨hname₁, hvalue₁⟩ := formDecode_parameter hname hvalue hequals
  obtain ⟨hname₂, hvalue₂⟩ := formDecode_parameter hname' hvalue' hequals'
  generalize hfirstPart : name ++ '=' :: value = first at *
  generalize hsecondPart : name' ++ '=' :: value' = second at *
  have hascii : ∀ c ∈ first ++ '&' :: second, c.toNat < 0x80 :=
    List.forall_mem_append.mpr ⟨fun c hc => (hfirst c hc).1,
      List.forall_mem_cons.mpr ⟨by decide, fun c hc => (hsecond c hc).1⟩⟩
  have hnotMem {part : List Char} (h : ∀ c ∈ part, c.toNat < 0x80 ∧ c ≠ '&') :
      0x26 ∉ part.map byteOf := by
    intro hmem
    obtain ⟨c, hc, heq⟩ := List.mem_map.mp hmem
    exact (h c hc).2 (byteOf_inj (h c hc).1 (by decide) heq)
  -- Neither part holds an ampersand, so the row is split where they were joined.
  have hsplit : ((first ++ '&' :: second).map byteOf).splitOn 0x26 =
      [first.map byteOf, second.map byteOf] := by
    have hrow : (first ++ '&' :: second).map byteOf =
        [0x26].intercalate [first.map byteOf, second.map byteOf] := by
      have hampersand : byteOf '&' = 0x26 := rfl
      simp [List.intercalate, hampersand]
    rw [hrow, List.splitOn_intercalate 0x26 _ (List.cons_ne_nil _ _)]
    intro part hmem
    rcases List.mem_pair.mp hmem with rfl | rfl
    · exact hnotMem hfirst
    · exact hnotMem hsecond
  -- Empty parts are dropped when a query is read; these two hold an equals sign at least.
  have hfilter : [first.map byteOf, second.map byteOf].filter (· ≠ []) =
      [first.map byteOf, second.map byteOf] := by
    refine List.filter_eq_self.mpr fun part hmem => decide_eq_true ?_
    rcases List.mem_pair.mp hmem with rfl | rfl <;> rw [Ne, List.map_eq_nil_iff]
    · rw [← hfirstPart]
      exact List.append_ne_nil_of_right_ne_nil _ (List.cons_ne_nil _ _)
    · rw [← hsecondPart]
      exact List.append_ne_nil_of_right_ne_nil _ (List.cons_ne_nil _ _)
  rw [readFormPairs, utf8Chars_of_ascii hascii, hsplit, hfilter, List.map_cons, List.map_cons,
    List.map_nil, hname₁, hvalue₁, hname₂, hvalue₂]

theorem isBare_of_mem_ofInt {i : Int} {c : Char} (h : c ∈ ofInt i) : IsBare c := by
  have hdigit {n : Nat} (hc : c ∈ ofNat n) : IsBare c := by
    have hd : c.isDigit = true := isDigit_of_mem_ofNat hc
    -- Digits end at 57, and none of the characters with a meaning in a query is a digit.
    have hupper : c.toNat ≤ 57 := (Bool.and_eq_true_iff.mp hd).2 |> of_decide_eq_true
    have hne {d : Char} (hnot : d.isDigit = false) : c ≠ d := by
      rintro rfl
      rw [hd] at hnot
      cases hnot
    exact ⟨by omega, hne rfl, hne rfl, hne rfl, hne rfl⟩
  cases i with
  | ofNat n => exact hdigit h
  | negSucc n =>
    -- A negative numeral has a minus sign in front, which is bare as well.
    rcases List.mem_cons.mp h with rfl | hc
    · decide
    · exact hdigit hc

/-- A word is read back from its numeral. -/
theorem readWord?_word (w : Int64) : readWord? (ofInt w.toInt) = some w.toInt := by
  refine readWord?_ofInt ?_
  rw [isWord, Bool.and_eq_true, decide_eq_true_eq, decide_eq_true_eq]
  exact ⟨w.le_toInt, w.toInt_lt⟩

end Text

namespace Http

open Text

/-- A path and a query without a fragment are read as they are. -/
theorem Target.ofChars_query {path query : List Char} (hstart : path.head? = some '/')
    (hquery : '?' ∉ path) (hfragment : '#' ∉ path) (hplain : '#' ∉ query) :
    ofChars (path ++ '?' :: query) = ⟨"", String.ofList path, some (String.ofList query)⟩ := by
  have hne : path ≠ [] := by
    rintro rfl
    cases hstart
  -- The target starts with the slash of the path, so it has no origin in front.
  have hhead : (path ++ '?' :: query).head? = some '/' := by
    rw [List.head?_append_of_ne_nil _ hne, hstart]
  -- There is no fragment, so all of the text is path and query.
  have hkept : ∀ c ∈ path ++ '?' :: query, decide (c ≠ '#') = true := by
    refine fun c hc => decide_eq_true ?_
    rintro rfl
    rw [List.mem_append, List.mem_cons] at hc
    rcases hc with hc | hc | hc
    · exact hfragment hc
    · exact absurd hc (by decide)
    · exact hplain hc
  -- The first question mark is the one behind the path.
  have hpath : ∀ c ∈ path, decide (c ≠ '?') = true := fun c hc =>
    decide_eq_true fun heq => hquery (heq ▸ hc)
  rw [ofChars, if_pos (Or.inl hhead), ofPathChars, List.takeWhile_eq_self_iff.mpr hkept,
    List.takeWhile_append_of_pos hpath, List.dropWhile_append_of_pos hpath,
    List.takeWhile_cons_of_neg (by decide), List.dropWhile_cons_of_neg (by decide),
    List.append_nil]
  simp only [List.isEmpty_iff, hne, if_false]

/-- A path that a query can stand behind: it starts with a slash, and neither a query nor a fragment
starts in it. -/
structure IsPath (path : String) : Prop where
  /-- It starts with a slash. -/
  start : path.toList.head? = some '/'
  /-- No query starts in it. -/
  no_query : '?' ∉ path.toList
  /-- No fragment starts in it. -/
  no_fragment : '#' ∉ path.toList

/-- The path of a target ends where its query or its fragment starts. -/
theorem Target.notMem_path_ofPathChars (origin s : List Char) :
    '?' ∉ (ofPathChars origin s).path.toList ∧ '#' ∉ (ofPathChars origin s).path.toList := by
  -- What is taken while a condition holds has no character for which it fails.
  have hcut {p : Char → Bool} {c : Char} {l : List Char} (hc : p c = false) : c ∉ l.takeWhile p :=
    fun hmem => Bool.noConfusion (hc.symm.trans (List.mem_takeWhile_imp hmem))
  simp only [ofPathChars, String.toList_ofList]
  split_ifs
  · exact ⟨by decide, by decide⟩
  · -- The path is cut at the fragment first and at the query then, and a part of a text has no more
    -- characters.
    refine ⟨hcut (by decide), fun hmem => hcut (l := s) ?_ ((List.takeWhile_subset _) hmem)⟩
    decide

/-- Whatever target is the one of a resource, its path is one that links can be put behind. -/
theorem Target.isPath_of_resource {s : String} {resource : Resource}
    (h : Resource.ofPath? (parse s).path = some resource) : IsPath (parse s).path := by
  -- A resource is read from a path that starts with a slash.
  have hstart : (parse s).path.toList.head? = some '/' := by
    rw [Resource.ofPath?] at h
    split at h
    next rest hrest => rw [hrest, List.head?_cons]
    next => cases h
  -- Whichever form the target has, its path was cut there or is empty.
  have hends : '?' ∉ (parse s).path.toList ∧ '#' ∉ (parse s).path.toList := by
    rw [parse, ofChars]
    split
    · exact notMem_path_ofPathChars _ _
    · split
      · exact notMem_path_ofPathChars _ _
      · exact ⟨List.not_mem_nil, List.not_mem_nil⟩
  exact ⟨hstart, hends.1, hends.2⟩

/-- A link is read as the path and the request for the range that it names. -/
theorem Target.page?_parse_link {path : String} (hpath : IsPath path) (r : PageRange) :
    (Target.parse (r.link path)).path = path ∧
      (Target.parse (r.link path)).page? = some r.request := by
  let query : List Char := ("page[offset]".toList ++ '=' :: ofInt r.start.toInt) ++
    '&' :: ("page[limit]".toList ++ '=' :: ofInt r.size.toInt)
  -- The link is its path and one query, written out as characters.
  have hlink : (r.link path).toList = path.toList ++ '?' :: query := by
    simp only [PageRange.link, String.toList_append, String.toList_ofList, List.append_assoc]
    rfl
  -- Numerals hold digits and a minus sign, so a query takes them as they are.
  have hnumber (w : Int64) : ∀ c ∈ ofInt w.toInt, IsBare c := fun c hc => isBare_of_mem_ofInt hc
  have hplain : '#' ∉ query := by
    simp only [query, List.mem_append, List.mem_cons, not_or]
    exact ⟨⟨by decide, by decide, fun hc => (hnumber r.start _ hc).2.2.2.2 rfl⟩, by decide,
      by decide, by decide, fun hc => (hnumber r.size _ hc).2.2.2.2 rfl⟩
  -- The path takes up to the question mark, and the query all of the rest.
  have hparse : Target.parse (r.link path) = ⟨"", path, some (String.ofList query)⟩ := by
    rw [parse, hlink, ofChars_query hpath.start hpath.no_query hpath.no_fragment
      hplain, String.ofList_toList]
  -- The query has two parameters, under the names that a listing asks for.
  have hpairs : readFormPairs (utf8 (String.ofList query)) =
      [("page[offset]", String.ofList (ofInt r.start.toInt)),
        ("page[limit]", String.ofList (ofInt r.size.toInt))] := by
    have hname (name : String) (h : name.toList.all (fun c => decide (IsBare c)) = true) :
        ∀ c ∈ name.toList, IsBare c :=
      fun c hc => of_decide_eq_true (List.all_eq_true.mp h c hc)
    rw [utf8, String.toList_ofList]
    exact readFormPairs_pair (hname "page[offset]" (by decide)) (hnumber r.start)
      (hname "page[limit]" (by decide)) (hnumber r.size) (by decide) (by decide)
  -- Neither of the names comes twice.
  have honly (start size : String) :
      let pairs := [("page[offset]", start), ("page[limit]", size)]
      onlyValue? pairs "page[offset]" = some (some start) ∧
        onlyValue? pairs "page[limit]" = some (some size) := ⟨rfl, rfl⟩
  obtain ⟨hoffset, hlimit⟩ := honly (String.ofList (ofInt r.start.toInt))
    (String.ofList (ofInt r.size.toInt))
  rw [hparse]
  refine ⟨rfl, ?_⟩
  simp only [page?, Option.getD_some, hpairs, hoffset, hlimit, Option.bind_eq_bind,
    Option.bind_some, String.toList_ofList, readWord?_word]
  rfl

/-- The range that a link names: where it starts, and how many items it asks for. -/
def namedRange? (link : String) : Option (Int × Int) := do
  let page ← (Target.parse link).page?
  let offset ← page.offset
  return (← readWord? offset.toList, ← page.limit)

/-- A page can show all items that a link names. -/
def Fits (link : String) : Prop :=
  ∃ range, namedRange? link = some range ∧ range.2 ≤ 100

/-- A link names the range that it was printed for. -/
theorem namedRange?_link {path : String} (hpath : IsPath path) (r : PageRange) :
    namedRange? (r.link path) = some (r.start.toInt, r.size.toInt) := by
  simp only [namedRange?, (Target.page?_parse_link hpath r).2, PageRange.request, readWord?_word,
    String.toList_ofList, Option.bind_eq_bind, Option.bind_some]
  rfl

theorem fits_link_iff {path : String} (hpath : IsPath path) (r : PageRange) :
    Fits (r.link path) ↔ r.size.toInt ≤ 100 := by
  rw [Fits, namedRange?_link hpath]
  constructor
  · rintro ⟨range, hrange, hle⟩
    rwa [← Option.some.inj hrange] at hle
  · exact fun hle => ⟨_, rfl, hle⟩

end Http

/-! ### The links of a listing -/

/-- The text under a name. -/
def Json.textAt? (j : Json) (name : String) : Option String :=
  match j.get? name with
  | some (.string text) => some text
  | _ => none

/-- The kinds of links around a page. -/
inductive LinkKind where
  /-- To the start of the list. -/
  | first
  /-- To the page before. -/
  | prev
  /-- To the page behind. -/
  | next
  /-- To the end of the list. -/
  | last
  deriving DecidableEq, Repr

/-- The name that a link has. -/
def LinkKind.name : LinkKind → String
  | first => "first"
  | prev => "prev"
  | next => "next"
  | last => "last"

namespace PageLinks

/-- The range of a kind. -/
def range? (links : PageLinks) : LinkKind → Option PageRange
  | .first => some links.first
  | .prev => links.prev
  | .next => links.next
  | .last => some links.last

/-- The link of a kind, as it is printed in a listing of the list at a path. -/
def link? (links : PageLinks) (path : String) (kind : LinkKind) : Option String :=
  (links.toJson path).textAt? kind.name

/-- There is a link for each range, and it leads to that range. -/
theorem link?_eq (links : PageLinks) (path : String) (kind : LinkKind) :
    links.link? path kind = (links.range? kind).map (·.link path) := by
  obtain ⟨first, prev, next, last⟩ := links
  cases prev <;> cases next <;> cases kind <;> rfl

end PageLinks

/-- The link of a kind, as it stands in the JSON value of a listing. -/
def Service.Listing.link? (l : Listing) (kind : LinkKind) : Option String :=
  (l.toJson.get? "links").bind (·.textAt? kind.name)

/-- The links of a listing are printed with the path of the list. -/
theorem Service.Listing.link?_eq (l : Listing) (kind : LinkKind) :
    l.link? kind = (l.links.range? kind).map (·.link l.path) :=
  PageLinks.link?_eq l.links l.path kind

end Roster
