import Roster.Proofs.LinkText
import Roster.Proofs.Links
import Roster.Proofs.Servable

/-!
# Where the links around a page lead

A link in a listing is followed by listing the page that its text is read as
(`Backend.Follows`). Where it names no more members than a page can show, it leads where it says:
the link back to the members right before the page, so that walking back visits every earlier member
once; the last link to the end of the list; the first link to its start (`links_lead`).

A page that runs over the end of the list has links that step by the whole list. In a list of more
than a hundred members these can name more than a page can show, and then only the first hundred of
them are shown. The last link is right all the same where the page starts in the list, since it
leads to that page again; the others miss what they name.

The proofs are about ranges. What ties them to the texts is that a listing is known to be a page of
the list (`Service.Listing.IsPage`), which says what links it is printed with.
-/

namespace Roster

open Service Http

namespace Service.Listing

/-- The members on the page. -/
def members (l : Listing) : List Uuid :=
  l.identities.map (·.id)

/-- A listing is the page of a list that is asked for, with the links around that page. -/
structure IsPage (ids : List Uuid) (page : PageRequest) (path : String) (l : Listing) : Prop where
  /-- It shows what is asked for. -/
  members : l.members = (ids.drop page.start.toNat).take page.size.toNat
  /-- It tells how long the list is. -/
  total : l.total = ids.length
  /-- Its links lead to where it was asked for. -/
  path : l.path = path
  /-- The links are those around the page. -/
  links : l.links = page.linksIn ids

variable {ids : List Uuid} {page : PageRequest} {path link : String} {shown : Listing}
  {kind : LinkKind}

theorem IsPage.link?_eq_some (h : shown.IsPage ids page path) :
    shown.link? kind = some link ↔
      ∃ r, (page.linksIn ids).range? kind = some r ∧ r.link path = link := by
  rw [link?_eq, h.links, h.path, Option.map_eq_some_iff]

theorem IsPage.link?_eq_none (h : shown.IsPage ids page path) :
    shown.link? kind = none ↔ (page.linksIn ids).range? kind = none := by
  rw [link?_eq, h.links, Option.map_eq_none_iff]

end Service.Listing

namespace Backend

/-- A link is followed: the page that its text is read as is listed, where the text says. -/
def Follows (b : Backend) (text link : String) (shown : Listing) : Prop :=
  ∃ page, (Target.parse link).page? = some page ∧
    (b.run (list text page (Target.parse link).path)).value = .ok shown

/-- Following one kind of link from page to page shows pages, until there is none to follow. -/
inductive Walk (b : Backend) (text : String) (kind : LinkKind) : Listing → List Listing → Prop
  /-- There is no link to follow. -/
  | done {shown : Listing} (hlink : shown.link? kind = none) : Walk b text kind shown []
  /-- A link is followed, and then those of its page. -/
  | follow {shown next : Listing} {link : String} {others : List Listing}
      (hlink : shown.link? kind = some link) (hnext : b.Follows text link next)
      (hothers : Walk b text kind next others) :
      Walk b text kind shown (next :: others)

namespace Roll

variable {b : Backend} {text path link : String} {ids : List Uuid} {r : PageRange}
  {page : PageRequest} {shown : Listing} {kind : LinkKind}

/-- A page shows what is found for the members that are asked for. -/
theorem run_page (h : b.Roll text ids) (hlength : ids.length < 2 ^ 62) (page : PageRequest)
    (path : String) :
    ∃ shown, (b.run (list text page path)).value = .ok shown ∧ shown.IsPage ids page path ∧
      List.Forall₂ (fun id identity => b.find (.identity id) = .ok (some identity))
        ((ids.drop page.start.toNat).take page.size.toNat) shown.identities := by
  have hsize := page.size_le
  obtain ⟨identities, hfound, hvalue⟩ := h.run_list page path
  rw [← hfound.length_eq] at hvalue
  -- The window is the page in plain numbers, as the list is no longer than a word can count.
  rw [Window.items_of hlength (by omega)] at hfound
  exact ⟨_, hvalue, ⟨map_id_of_found hfound, rfl, rfl, rfl⟩, hfound⟩

/-- A link that was printed for a range shows as many of the members in the range as a page can. -/
theorem follows_link (h : b.Roll text ids) (hlength : ids.length < 2 ^ 62) (hpath : IsPath path)
    {start size : Nat} (hstart : r.start.toInt = start) (hsize : r.size.toInt = size)
    (hstartSmall : start < 2 ^ 62) (hpos : 0 < size) :
    ∃ shown, b.Follows text (r.link path) shown ∧ shown.IsPage ids r.request path ∧
      shown.members = (ids.drop start).take (min size 100) := by
  -- What the printed text is read as is the range and the path that it was printed for.
  obtain ⟨hkept, hread⟩ := Target.page?_parse_link hpath r
  obtain ⟨shown, hvalue, hpage, -⟩ := h.run_page hlength r.request path
  refine ⟨shown, ⟨r.request, hread, hkept.symm ▸ hvalue⟩, hpage, ?_⟩
  rw [hpage.members, PageRange.start_request hstart hstartSmall, PageRange.size_request hsize hpos]

/-- Links that step by no more than a page can show name no more than that. -/
theorem fits_of_step (hlength : ids.length < 2 ^ 62) (hpath : IsPath path)
    (hpage : shown.IsPage ids page path) (hstep : page.stepIn ids.length ≤ 100)
    (hlink : shown.link? kind = some link) : Fits link := by
  obtain ⟨r, hrange, rfl⟩ := hpage.link?_eq_some.mp hlink
  rw [fits_link_iff hpath]
  cases kind with
  | first =>
    -- What is left of the start by the step is less than the step.
    obtain rfl := Option.some.inj hrange
    have hrest : page.startIn ids.length % max (page.stepIn ids.length) 1 <
        max (page.stepIn ids.length) 1 := Nat.mod_lt _ (by omega)
    rw [(page.first_linksIn hlength).2]
    split_ifs <;> omega
  | prev =>
    obtain ⟨-, -, hsize⟩ := (PageRequest.prev_linksIn hlength).mp hrange
    omega
  | next =>
    obtain ⟨-, -, hsize⟩ := (PageRequest.next_linksIn hlength).mp hrange
    have hle := page.size_le
    omega
  | last =>
    -- The last link is cut at the start of the list, and never longer than the step.
    obtain rfl := Option.some.inj hrange
    have hle := page.size_last_linksIn_le hlength
    omega

/-! ### Back -/

theorem fits_prev_iff (hlength : ids.length < 2 ^ 62) (hpath : IsPath path)
    (hprev : (page.linksIn ids).prev = some r) :
    Fits (r.link path) ↔ min (page.stepIn ids.length) (page.startIn ids.length) ≤ 100 := by
  obtain ⟨-, -, hsize⟩ := (PageRequest.prev_linksIn hlength).mp hprev
  rw [fits_link_iff hpath, hsize]
  exact Int.ofNat_le

/-- A link back that names no more than a page can show leads to the members right before the page,
and to a page of which the same is true. -/
theorem step_back (h : b.Roll text ids) (hlength : ids.length < 2 ^ 62) (hpath : IsPath path)
    (hpage : shown.IsPage ids page path) (hlink : shown.link? .prev = some link)
    (hfits : Fits link) :
    ∃ asked before, b.Follows text link before ∧ before.IsPage ids asked path ∧
      before.members ≠ [] ∧
      ids.take (page.startIn ids.length) =
        ids.take (asked.startIn ids.length) ++ before.members ∧
      asked.startIn ids.length < page.startIn ids.length ∧ asked.stepIn ids.length ≤ 100 := by
  obtain ⟨r, hprev, rfl⟩ := hpage.link?_eq_some.mp hlink
  rw [fits_prev_iff hlength hpath hprev] at hfits
  obtain ⟨hpos, hstart, hsize⟩ := (PageRequest.prev_linksIn hlength).mp hprev
  have hle := page.startIn_le ids.length
  have hstep := page.stepIn_pos (Nat.lt_of_lt_of_le hpos hle)
  obtain ⟨before, hfollows, hbefore, hmembers⟩ :=
    h.follows_link hlength hpath hstart hsize (by omega) (by omega)
  -- The page before starts one step ahead of this one, or at the start of the list.
  have hrequested : r.request.startIn ids.length =
      page.startIn ids.length - page.stepIn ids.length := by
    rw [PageRequest.startIn, PageRange.start_request hstart (by omega)]
    omega
  have hasked : r.request.size.toNat = min (page.stepIn ids.length) (page.startIn ids.length) := by
    rw [PageRange.size_request hsize (by omega)]
    omega
  -- The link fits, so the page before shows all that it names and ends where this one starts.
  rw [Nat.min_eq_left hfits] at hmembers
  refine ⟨_, before, hfollows, hbefore, ?_, ?_, by omega, ?_⟩
  · -- Its range is not empty and lies in the list, so it shows a member.
    rw [hmembers, ← List.length_pos_iff, List.length_take, List.length_drop]
    omega
  · have hsum : page.startIn ids.length - page.stepIn ids.length +
        min (page.stepIn ids.length) (page.startIn ids.length) = page.startIn ids.length := by omega
    rw [hmembers, hrequested, ← List.take_add, hsum]
  · -- The page before does not run over the end, so it steps by what it was asked for.
    rw [PageRequest.stepIn, if_neg (by omega)]
    omega

/-- A link back that names more than a page can show leads to the start of the list. -/
theorem skip_back (h : b.Roll text ids) (hlength : ids.length < 2 ^ 62) (hpath : IsPath path)
    (hpage : shown.IsPage ids page path) (hlink : shown.link? .prev = some link)
    (hfits : ¬ Fits link) :
    ∃ before, b.Follows text link before ∧ before.total = ids.length ∧
      before.members = ids.take 100 ∧ before.link? .prev = none := by
  obtain ⟨r, hprev, rfl⟩ := hpage.link?_eq_some.mp hlink
  rw [fits_prev_iff hlength hpath hprev] at hfits
  obtain ⟨hpos, hstart, hsize⟩ := (PageRequest.prev_linksIn hlength).mp hprev
  have hle := page.startIn_le ids.length
  have hwhole := page.stepIn_le_or_eq ids.length
  -- Only a step over the whole list is longer than a page, and that leads back to the start.
  have hzero : page.startIn ids.length - page.stepIn ids.length = 0 := by omega
  obtain ⟨before, hfollows, hbefore, hmembers⟩ :=
    h.follows_link hlength hpath hstart hsize (by omega) (by omega)
  rw [Nat.min_eq_right (by omega), hzero, List.drop_zero] at hmembers
  have hnone : (r.request.linksIn ids).prev = none := by
    rw [PageRequest.prev_linksIn_eq_none hlength, PageRequest.startIn,
      PageRange.start_request hstart (by omega), hzero, Nat.zero_min]
  exact ⟨before, hfollows, hbefore.total, hmembers, hbefore.link?_eq_none.mpr hnone⟩

/-- Following the links back from a page shows all members before it, each once. -/
theorem walk_back (h : b.Roll text ids) (hlength : ids.length < 2 ^ 62) (hpath : IsPath path)
    (hpage : shown.IsPage ids page path)
    (hfits : ∀ link, shown.link? .prev = some link → Fits link) :
    ∃ pages, b.Walk text .prev shown pages ∧ (∀ before ∈ pages, before.members ≠ []) ∧
      (∀ before ∈ pages, before.total = ids.length) ∧
      pages.reverse.flatMap (·.members) = ids.take (page.startIn ids.length) := by
  -- By induction on where the page starts: the page before it starts further ahead.
  generalize hn : page.startIn ids.length = start
  induction start using Nat.strong_induction_on generalizing page shown with
  | _ start ih =>
    -- Without a link back the page starts where the list does.
    cases hlink : shown.link? .prev with
    | none =>
      have hzero : page.startIn ids.length = 0 :=
        (PageRequest.prev_linksIn_eq_none hlength).mp (hpage.link?_eq_none.mp hlink)
      refine ⟨[], .done hlink, List.forall_mem_nil _, List.forall_mem_nil _, ?_⟩
      rw [← hn, hzero]
      rfl
    | some link =>
      obtain ⟨asked, before, hfollows, hbefore, hne, htake, hless, hstep⟩ :=
        h.step_back hlength hpath hpage hlink (hfits link hlink)
      -- The page before steps by no more than a page, and so its link back fits as well.
      obtain ⟨pages, hwalk, hnonempty, htotals, hpages⟩ := ih _ (hn ▸ hless) hbefore
        (fun _ hback => fits_of_step hlength hpath hbefore hstep hback) rfl
      refine ⟨before :: pages, .follow hlink hfollows hwalk,
        List.forall_mem_cons.mpr ⟨hne, hnonempty⟩,
        List.forall_mem_cons.mpr ⟨hbefore.total, htotals⟩, ?_⟩
      calc (before :: pages).reverse.flatMap (·.members)
          = pages.reverse.flatMap (·.members) ++ before.members := by
            rw [List.reverse_cons, List.flatMap_append, List.flatMap_singleton]
        _ = ids.take (asked.startIn ids.length) ++ before.members := by rw [hpages]
        _ = ids.take start := by rw [← htake, hn]

/-! ### To the end and to the start -/

theorem fits_last_iff (hlength : ids.length < 2 ^ 62) (hpath : IsPath path) (hne : ids ≠ []) :
    Fits ((page.linksIn ids).last.link path) ↔ page.stepIn ids.length ≤ 100 := by
  rw [fits_link_iff hpath, (page.last_linksIn hlength hne).2]
  exact Int.ofNat_le

/-- Where the last link starts, and how far it is from there to the end of the list. -/
theorem exists_start_last (hlength : ids.length < 2 ^ 62) (hne : ids ≠ []) (page : PageRequest) :
    ∃ start : Nat, (page.linksIn ids).last.start.toInt = start ∧ start < ids.length ∧
      (page.stepIn ids.length ≤ 100 ∨ page.startIn ids.length < ids.length →
        ids.length ≤ start + min (page.stepIn ids.length) 100) ∧
      (page.startIn ids.length = ids.length → start = 0 ∧ page.stepIn ids.length = ids.length) := by
  obtain ⟨hstart, -⟩ := page.last_linksIn hlength hne
  have hcount := List.length_pos_iff.mpr hne
  have hstep := page.stepIn_pos hcount
  have hle := page.startIn_le ids.length
  have hwhole := page.stepIn_le_or_eq ids.length
  refine ⟨_, hstart, ?_⟩
  by_cases hinside : page.startIn ids.length < ids.length
  · -- Whole pages behind the start leave less than a page to the end.
    rw [if_pos hinside]
    have hover := Nat.div_mul_le_self (ids.length - page.startIn ids.length - 1)
      (page.stepIn ids.length)
    have hunder : ids.length - page.startIn ids.length - 1 <
        (ids.length - page.startIn ids.length - 1) / page.stepIn ids.length *
          page.stepIn ids.length + page.stepIn ids.length := Nat.lt_div_mul_add hstep
    refine ⟨by omega, fun _ => ?_, fun hend => absurd hend hinside.ne⟩
    omega
  · -- A page at the end runs over it, so the links step by the whole list.
    have hsize := page.size_pos
    have hall : page.stepIn ids.length = ids.length := by
      rw [PageRequest.stepIn, if_pos (by omega)]
    rw [if_neg hinside]
    exact ⟨hcount, fun hright => by omega, fun _ => ⟨rfl, hall⟩⟩

/-- The last link shows the end of the list if it fits or the page starts in the list, and else the
start. -/
theorem leads_last (h : b.Roll text ids) (hlength : ids.length < 2 ^ 62) (hpath : IsPath path)
    (hne : ids ≠ []) (hpage : shown.IsPage ids page path) :
    ∃ link final, shown.link? .last = some link ∧ b.Follows text link final ∧
      final.total = ids.length ∧
      (Fits link ∨ page.startIn ids.length < ids.length →
        final.members ≠ [] ∧ final.members <:+ ids ∧ final.link? .next = none) ∧
      (¬ Fits link → page.startIn ids.length = ids.length →
        final.members = ids.take 100 ∧ final.link? .next ≠ none) := by
  let last := (page.linksIn ids).last
  obtain ⟨start, hstart, hinside, hend, hbehind⟩ := exists_start_last hlength hne page
  obtain ⟨-, hsize⟩ := page.last_linksIn hlength hne
  have hstep := page.stepIn_pos (List.length_pos_iff.mpr hne)
  obtain ⟨final, hfollows, hfinal, hmembers⟩ :=
    h.follows_link hlength hpath hstart hsize (by omega) hstep
  -- Whether there is a link forth is a matter of how far the link reaches.
  have hnext : final.link? .next = none ↔
      ids.length ≤ start + min (page.stepIn ids.length) 100 := by
    rw [hfinal.link?_eq_none, PageLinks.range?, PageRequest.next_linksIn_eq_none hlength,
      PageRequest.startIn, PageRange.start_request hstart (by omega),
      PageRange.size_request hsize hstep, Nat.min_eq_left (by omega)]
  have hfits : Fits (last.link path) ↔ page.stepIn ids.length ≤ 100 :=
    fits_last_iff hlength hpath hne
  refine ⟨last.link path, final, hpage.link?_eq_some.mpr ⟨last, rfl, rfl⟩, hfollows, hfinal.total,
    fun hright => ?_, fun hwrong hatEnd => ?_⟩
  · -- What is shown reaches the end of the list.
    have hreach := hend (hright.imp_left hfits.mp)
    have hall : (ids.drop start).take (min (page.stepIn ids.length) 100) = ids.drop start := by
      rw [List.take_of_length_le]
      rw [List.length_drop]
      omega
    rw [hmembers, hall]
    refine ⟨?_, List.drop_suffix _ _, hnext.mpr hreach⟩
    -- There is a member from its start on, since that is before the end of the list.
    rw [← List.length_pos_iff, List.length_drop]
    omega
  · -- The whole list is named, and only its start is shown.
    obtain ⟨rfl, hwhole⟩ := hbehind hatEnd
    rw [hfits] at hwrong
    rw [hmembers, Nat.min_eq_right (by omega), List.drop_zero, Ne, hnext]
    exact ⟨rfl, by omega⟩

/-- The first link shows the start of the list, as much of it as it names and a page can show. -/
theorem leads_first (h : b.Roll text ids) (hlength : ids.length < 2 ^ 62) (hpath : IsPath path)
    (hpage : shown.IsPage ids page path) :
    ∃ link limit head, shown.link? .first = some link ∧ namedRange? link = some (0, limit) ∧
      b.Follows text link head ∧ head.total = ids.length ∧
      head.members = ids.take (min limit.toNat 100) := by
  let first := (page.linksIn ids).first
  obtain ⟨hstart, hsize⟩ := page.first_linksIn hlength
  -- The range is a step, or what is left of the offset by a step if anything is.
  have hpos : 0 < if page.startIn ids.length % max (page.stepIn ids.length) 1 = 0
      then max (page.stepIn ids.length) 1
      else page.startIn ids.length % max (page.stepIn ids.length) 1 := by
    split_ifs <;> omega
  have hzero : first.start.toInt = (0 : Nat) := hstart
  obtain ⟨head, hfollows, hhead, hmembers⟩ :=
    h.follows_link hlength hpath hzero hsize (by omega) hpos
  have hnamed : namedRange? (first.link path) = some (0, first.size.toInt) := by
    rw [namedRange?_link hpath, hzero]
    rfl
  refine ⟨first.link path, first.size.toInt, head, hpage.link?_eq_some.mpr ⟨first, rfl, rfl⟩,
    hnamed, hfollows, hhead.total, ?_⟩
  rw [hmembers, List.drop_zero, hsize, Int.toNat_natCast]

end Roll

/-- A backend with one space, whose members are all there. -/
def withMembers (ids : List Uuid) : Backend where
  directory := { identities := ids.map .nameless, resources := [⟨.uniform 0, "policy"⟩] }
  store := { policies := [("policy", .listing "policy" ids)] }

theorem roll_withMembers (ids : List Uuid) : (withMembers ids).Roll (Uuid.uniform 0).text ids where
  fetch := rfl
  listed :=
    ⟨.uniform 0, ⟨.uniform 0, "policy"⟩, .listing "policy" ids, by decide +kernel, rfl, rfl,
      MemberList.decode_encode ids⟩
  known id hid := by
    have hsome : ((ids.map Identity.nameless).find? (·.id = id)).isSome = true :=
      List.find?_isSome.mpr ⟨.nameless id, List.mem_map_of_mem hid, decide_eq_true rfl⟩
    obtain ⟨identity, hidentity⟩ := Option.isSome_iff_exists.mp hsome
    -- Every member has an identity, so some identity is found for it.
    exact ⟨identity, congrArg Except.ok hidentity⟩

end Backend

/-- An identifier that shows the last two hexadecimal digits of a number. -/
def Uuid.counted (n : Nat) : Uuid :=
  ⟨(uniform (n / 16)).digits.take 16 ++ (uniform n).digits.take 16, rfl⟩

namespace Service

/-- **Links lead where they say, as far as a page can show what they name.** Any page of a list of
members that are all found, a list that is no longer than a memory can hold, can be listed, and its
links can be followed:

* A link back that fits leads to a page that ends right before this one, and walking back shows all
  members before the page, each once. One that does not fit shows the first hundred members.
* The last link shows the end of the list, with no link forth, if it fits or the page starts in the
  list. Else it shows the first hundred members, with a link forth.
* The first link shows the start of the list, as many members as it names, or a hundred at most.

All links fit unless the list has more than a hundred members and the page runs over its end. -/
theorem links_lead {b : Backend} {text path : String} {ids : List Uuid} (hroll : b.Roll text ids)
    (hlength : ids.length < 2 ^ 62) (hpath : IsPath path) (page : PageRequest) :
    let start := page.startIn ids.length
    ∃ shown, (b.run (list text page path)).value = .ok shown ∧
    shown.members = (ids.drop page.start.toNat).take page.size.toNat ∧ shown.total = ids.length ∧
    (∀ link, shown.link? .prev = some link → ∃ before, b.Follows text link before ∧
      before.total = ids.length ∧
      (Fits link → before.members ≠ [] ∧ before.members.getLast? = ids[start - 1]?) ∧
      (¬ Fits link → before.members = ids.take 100 ∧ before.link? .prev = none)) ∧
    ((∀ link, shown.link? .prev = some link → Fits link) → ∃ pages,
      b.Walk text .prev shown pages ∧ (∀ before ∈ pages, before.members ≠ []) ∧
        (∀ before ∈ pages, before.total = ids.length) ∧
        pages.reverse.flatMap (·.members) = ids.take start) ∧
    (ids ≠ [] → ∃ link final, shown.link? .last = some link ∧ b.Follows text link final ∧
      final.total = ids.length ∧
      (Fits link ∨ start < ids.length →
        final.members ≠ [] ∧ final.members <:+ ids ∧ final.link? .next = none) ∧
      (¬ Fits link → start = ids.length →
        final.members = ids.take 100 ∧ final.link? .next ≠ none)) ∧
    (∃ link limit head, shown.link? .first = some link ∧ namedRange? link = some (0, limit) ∧
      b.Follows text link head ∧ head.total = ids.length ∧
      head.members = ids.take (min limit.toNat 100)) ∧
    (ids.length ≤ 100 ∨ start + page.size.toNat ≤ ids.length →
      ∀ kind link, shown.link? kind = some link → Fits link) := by
  intro start
  -- The page itself is listed first; all else is about following the links that it shows.
  obtain ⟨shown, hvalue, hpage, -⟩ := hroll.run_page hlength page path
  refine ⟨shown, hvalue, hpage.members, hpage.total, fun link hlink => ?_,
    hroll.walk_back hlength hpath hpage, fun hne => hroll.leads_last hlength hpath hne hpage,
    hroll.leads_first hlength hpath hpage, fun hshort kind link hlink => ?_⟩
  · by_cases hfits : Fits link
    · obtain ⟨asked, before, hfollows, hbefore, hne, htake, hless, -⟩ :=
        hroll.step_back hlength hpath hpage hlink hfits
      -- The last of the members before the page is the one right before its start.
      have hend : (ids.take start).getLast? = ids[start - 1]? := by
        rw [List.getLast?_eq_getElem?, List.length_take, Nat.min_eq_left (page.startIn_le _),
          List.getElem?_take_of_lt (by omega)]
      refine ⟨before, hfollows, hbefore.total, fun _ => ⟨hne, ?_⟩, fun hnot => absurd hfits hnot⟩
      rw [← hend, htake, List.getLast?_append_of_ne_nil _ hne]
    · obtain ⟨before, hfollows, htotal, hskip⟩ :=
        hroll.skip_back hlength hpath hpage hlink hfits
      exact ⟨before, hfollows, htotal, fun hfit => absurd hfit hfits, fun _ => hskip⟩
  · -- A page that does not run over the end steps by its own size, and a short list is no longer.
    refine Backend.Roll.fits_of_step hlength hpath hpage ?_ hlink
    have hsize := page.size_le
    rw [PageRequest.stepIn]
    split_ifs <;> omega

/-- Walking back from the third of three members shows the second and then the first. -/
theorem third_of_three_walks_back :
    let ids : List Uuid := [.uniform 1, .uniform 2, .uniform 3]
    let space := (Uuid.uniform 0).text
    let path := "/v1/collaborators/" ++ space
    let b := Backend.withMembers ids
    let page : PageRequest := ⟨some "2", some 1⟩
    b.Roll space ids ∧ ids.length < 2 ^ 62 ∧ IsPath path ∧
      ∃ shown pages, (b.run (list space page path)).value = .ok shown ∧
        shown.members = [.uniform 3] ∧ b.Walk space .prev shown pages ∧
        pages.reverse.flatMap (·.members) = [.uniform 1, .uniform 2] := by
  intro ids space path b page
  have hroll : b.Roll space ids := Backend.roll_withMembers ids
  have hlength : ids.length < 2 ^ 62 := by decide
  have hpath : IsPath path := ⟨by decide +kernel, by decide +kernel, by decide +kernel⟩
  -- The list is short, so all of its links fit.
  obtain ⟨shown, hvalue, hmembers, -, -, hwalk, -, -, hfits⟩ := links_lead hroll hlength hpath page
  obtain ⟨pages, hback, -, -, hpages⟩ := hwalk (hfits (Or.inl (by decide)) .prev)
  exact ⟨hroll, hlength, hpath, shown, pages, hvalue, hmembers, hback, hpages⟩

/-- In a list of 102 members, the link back from the last of them names the first 101 and shows the
first hundred, and so not the member before the last. -/
theorem link_back_skips_member :
    let ids : List Uuid := (List.range 102).map .counted
    let space := (Uuid.uniform 0).text
    let path := "/v1/collaborators/" ++ space
    let b := Backend.withMembers ids
    let page : PageRequest := ⟨some "101", some 2⟩
    ∃ shown before link, (b.run (list space page path)).value = .ok shown ∧
      shown.members = [.counted 101] ∧ shown.link? .prev = some link ∧
      link = path ++ "?page[offset]=0&page[limit]=101" ∧ b.Follows space link before ∧
      before.members.getLast? = some (.counted 99) ∧ ids[100]? = some (.counted 100) := by
  intro ids space path b page
  have hroll : b.Roll space ids := Backend.roll_withMembers ids
  have hlength : ids.length < 2 ^ 62 := by decide +kernel
  -- The path has neither a query nor a fragment, as its texts are known.
  have hpath : IsPath path := ⟨by decide +kernel, by decide +kernel, by decide +kernel⟩
  obtain ⟨shown, hvalue, hpage, -⟩ := hroll.run_page hlength page path
  have hmembers : shown.members = [.counted 101] := by
    rw [hpage.members]
    decide +kernel
  -- The page runs over the end, so its link back steps by the whole list, cut at the start.
  have hprev : (page.linksIn ids).prev = some ⟨0, 101⟩ := by decide +kernel
  have hlink : shown.link? .prev = some ((PageRange.mk 0 101).link path) :=
    hpage.link?_eq_some.mpr ⟨_, hprev, rfl⟩
  have hfits : ¬ Fits ((PageRange.mk 0 101).link path) := by
    rw [fits_link_iff hpath]
    decide
  obtain ⟨before, hfollows, -, hskip, -⟩ := hroll.skip_back hlength hpath hpage hlink hfits
  have hend : before.members.getLast? = some (.counted 99) := by
    rw [hskip]
    decide +kernel
  exact ⟨shown, before, _, hvalue, hmembers, hlink, by decide +kernel, hfollows, hend,
    by decide +kernel⟩

end Service

end Roster
