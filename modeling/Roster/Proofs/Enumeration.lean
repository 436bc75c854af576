import Roster.Proofs.Navigation

/-!
# Following the links forth

Listing a page and following the link forth again and again is a tour of the list (`Tour`). The tour
goes on with what the text of the link is read as, and every listing takes place in the state that
the one before has left: a listing issues a token for the policy that it fetches, and leaves all
else as it is (`Backend.exists_holding_list`), so the members can still be listed.

A tour ends, and shows all members from where its first page starts, in order and each once
(`next_links_enumerate`). The link forth starts where the page ends (`Backend.Roll.step_forth`). It
keeps the size of the page: only a page that runs over the end of the list has links that step by
anything else, and there is nothing behind such a page.
-/

namespace Roster

open Service Http

variable {b : Backend} {text path : String} {ids : List Uuid} {page : PageRequest} {r : PageRange}

/-- Listing a page at a path and then following the links forth shows pages one after another, until
one of them has no link forth. Every page is listed in the state that the one before has left. -/
inductive Tour (text : String) : Backend → String → PageRequest → List Listing → Prop where
  /-- The page has no link forth. -/
  | last {b : Backend} {path : String} {page : PageRequest} {shown : Listing}
      (hshown : (b.run (list text page path)).value = .ok shown)
      (hlink : shown.link? .next = none) :
      Tour text b path page [shown]
  /-- The page has a link forth, and the tour goes on with what the link is read as. -/
  | more {b : Backend} {path : String} {page following : PageRequest} {shown : Listing}
      {link : String} {others : List Listing}
      (hshown : (b.run (list text page path)).value = .ok shown)
      (hlink : shown.link? .next = some link)
      (hread : (Target.parse link).page? = some following)
      (hothers : Tour text (b.run (list text page path)).state (Target.parse link).path following
        others) :
      Tour text b path page (shown :: others)

namespace Backend

/-- A listing leaves a backend the same apart from the number of tokens that have been issued. -/
theorem exists_holding_list (b : Backend) (text : String) (page : PageRequest) (path : String) :
    ∃ issued, (b.run (list text page path)).state = b.holding b.store.policies issued := by
  -- A listing stores nothing, so only the tokens can be others.
  obtain ⟨policies, issued, hstate⟩ := exists_holding_run (list text page path).run b
  have hreads : ∀ e ∈ (b.run (list text page path)).exchanges, e.call.isStore = false := fun e he =>
    Call.isStore_of_reads (list_only text page path _ _ (Program.shows_run answer _ b) e he)
  obtain ⟨-, hpolicies, -⟩ := serves_answer.credible (answers_run answer _ b) hreads
  change (b.run (list text page path)).state = _ at hstate
  change (b.run (list text page path)).state.store.policies = _ at hpolicies
  rw [hstate] at hpolicies
  exact ⟨issued, by rw [hstate, ← hpolicies]; rfl⟩

/-- A listing does not change what is found. -/
theorem find_after_list (b : Backend) (text : String) (page : PageRequest) (path : String)
    (lookup : Lookup) : (b.run (list text page path)).state.find lookup = b.find lookup := by
  obtain ⟨issued, hstate⟩ := b.exists_holding_list text page path
  rw [hstate]
  rfl

namespace Roll

/-- Members that can be listed can be listed after a listing as well. -/
theorem after_list (h : b.Roll text ids) (page : PageRequest) (path : String) :
    (b.run (list text page path)).state.Roll text ids := by
  obtain ⟨issued, hstate⟩ := b.exists_holding_list text page path
  rw [hstate]
  exact ⟨h.fetch, h.listed, h.known⟩

/-- The link forth leads to a page that starts where this one ends. That page shows something, and
what is left of the list behind it is less than what was left behind this one. -/
theorem step_forth (hlength : ids.length < 2 ^ 62) (hnext : (page.linksIn ids).next = some r) :
    r.request.start.toNat = page.startIn ids.length + page.size.toNat ∧
      r.request.startIn ids.length = r.request.start.toNat ∧
      (ids.drop r.request.start.toNat).take r.request.size.toNat ≠ [] ∧
      ids.length - r.request.startIn ids.length < ids.length - page.startIn ids.length := by
  obtain ⟨hinside, hstart, hsize⟩ := (PageRequest.next_linksIn hlength).mp hnext
  have hpos := page.size_pos
  have hforth : r.request.start.toNat = page.startIn ids.length + page.size.toNat :=
    PageRange.start_request (by exact_mod_cast hstart) (by omega)
  have hkept : r.request.startIn ids.length = r.request.start.toNat := by
    rw [PageRequest.startIn, hforth]
    omega
  have hshown := r.request.size_pos
  refine ⟨hforth, hkept, ?_, by omega⟩
  rw [← List.length_pos_iff, List.length_take, List.length_drop]
  omega

/-- A tour from any page ends and shows what is found for the members from the page on. Every page
behind the first one shows something. -/
theorem exists_tour (h : b.Roll text ids) (hlength : ids.length < 2 ^ 62) (hpath : IsPath path)
    (page : PageRequest) :
    ∃ first rest, Tour text b path page (first :: rest) ∧
      List.Forall₂ (fun id identity => b.find (.identity id) = .ok (some identity))
        ((ids.drop page.start.toNat).take page.size.toNat) first.identities ∧
      (∀ shown ∈ rest, shown.identities ≠ []) ∧
      (∀ shown ∈ first :: rest, shown.total = ids.length) ∧
      List.Forall₂ (fun id identity => b.find (.identity id) = .ok (some identity))
        (ids.drop page.start.toNat) ((first :: rest).flatMap (·.identities)) := by
  -- By induction on how much of the list is left: a page with a link forth leaves less behind it.
  generalize hleft : ids.length - page.startIn ids.length = left
  induction left using Nat.strong_induction_on generalizing b page with
  | _ left ih =>
    obtain ⟨first, hvalue, hpage, hfound⟩ := h.run_page hlength page path
    cases hlink : first.link? .next with
    | none =>
      -- The page reaches the end of the list, so it shows all that is left.
      have hend : ids.length ≤ page.startIn ids.length + page.size.toNat :=
        (PageRequest.next_linksIn_eq_none hlength).mp (hpage.link?_eq_none.mp hlink)
      have hall : (ids.drop page.start.toNat).take page.size.toNat = ids.drop page.start.toNat := by
        rw [List.take_of_length_le]
        rw [List.length_drop]
        rw [PageRequest.startIn] at hend
        omega
      refine ⟨first, [], .last hvalue hlink, hfound, by simp, by simp [hpage.total], ?_⟩
      rw [List.flatMap_singleton, ← hall]
      exact hfound
    | some link =>
      obtain ⟨r, hnext, rfl⟩ := hpage.link?_eq_some.mp hlink
      have hnext : (page.linksIn ids).next = some r := hnext
      obtain ⟨hforth, hkept, hne, hless⟩ := step_forth hlength hnext
      -- The link is read as the request for its range, at the path of the list.
      obtain ⟨hsame, hread⟩ := Target.page?_parse_link hpath r
      obtain ⟨next, rest, htour, hnextFound, hrest, htotal, hothers⟩ :=
        ih _ (hleft ▸ hless) (h.after_list page path) r.request rfl
      simp only [find_after_list] at hnextFound hothers
      -- As there is a link, the page starts in the list and shows as much as was asked for.
      have hstart : page.startIn ids.length = page.start.toNat := by
        have hinside := ((PageRequest.next_linksIn hlength).mp hnext).1
        rw [PageRequest.startIn] at hinside ⊢
        omega
      have hsplit : ids.drop page.start.toNat =
          (ids.drop page.start.toNat).take page.size.toNat ++ ids.drop r.request.start.toNat := by
        rw [hforth, hstart, ← List.drop_drop, List.take_append_drop]
      refine ⟨first, next :: rest, .more hvalue hlink hread (hsame.symm ▸ htour), hfound, ?_, ?_,
        ?_⟩
      · refine List.forall_mem_cons.mpr ⟨fun hnil => hne ?_, hrest⟩
        rw [hnil] at hnextFound
        exact List.forall₂_nil_right_iff.mp hnextFound
      · exact List.forall_mem_cons.mpr ⟨hpage.total, htotal⟩
      · rw [List.flatMap_cons, hsplit]
        exact List.rel_append hfound hothers

end Roll

end Backend

namespace Service

/-- **Following the links forth enumerates the list.** In a list of members that are all found, a
list that is no longer than a memory can hold, a tour from any page ends. Its pages behind the first
one are not empty, every page tells the length of the list, and all pages together show what is
found for the members from where the first page starts to the end, in order and each once. -/
theorem next_links_enumerate {b : Backend} {text path : String} {ids : List Uuid}
    (hroll : b.Roll text ids) (hlength : ids.length < 2 ^ 62) (hpath : IsPath path)
    (page : PageRequest) :
    ∃ first rest, Tour text b path page (first :: rest) ∧
      (∀ shown ∈ rest, shown.identities ≠ []) ∧
      (∀ shown ∈ first :: rest, shown.total = ids.length) ∧
      List.Forall₂ (fun id identity => b.find (.identity id) = .ok (some identity))
        (ids.drop (min page.start.toNat ids.length)) ((first :: rest).flatMap (·.identities)) := by
  obtain ⟨first, rest, htour, -, hrest, htotal, hfound⟩ := hroll.exists_tour hlength hpath page
  refine ⟨first, rest, htour, hrest, htotal, ?_⟩
  -- A page behind the end shows nothing, and there is nothing left to show.
  rcases Nat.le_total page.start.toNat ids.length with hinside | hbehind
  · rwa [Nat.min_eq_left hinside]
  · rw [Nat.min_eq_right hbehind, List.drop_length]
    rwa [List.drop_eq_nil_of_le hbehind] at hfound

/-- A tour of twenty-three members from the second one on, with no limit asked for, shows
twenty-two members on more than one page. -/
theorem tour_of_twenty_three :
    let ids : List Uuid := (List.range 23).map .counted
    let text := (Uuid.uniform 0).text
    let b := Backend.withMembers ids
    let target := Target.parse ("/v1/collaborators/" ++ text ++ "?page[offset]=+1+")
    let page : PageRequest := ⟨some " 1 ", none⟩
    target.page? = some page ∧ IsPath target.path ∧ b.Roll text ids ∧ ids.length < 2 ^ 62 ∧
      ∃ first rest, Tour text b target.path page (first :: rest) ∧
        (∀ shown ∈ first :: rest, shown.total = 23) ∧
        ((first :: rest).flatMap (·.identities)).map (·.id) = ids.drop 1 ∧ rest ≠ [] := by
  intro ids text b target page
  have hresource : Resource.ofPath? target.path = some (.collaborators text) := by decide +kernel
  have hpath : IsPath target.path := Target.isPath_of_resource hresource
  have hroll : b.Roll text ids := Backend.roll_withMembers ids
  have hlength : ids.length < 2 ^ 62 := by decide +kernel
  have htotal : ids.length = 23 := by decide +kernel
  have hstart : min page.start.toNat ids.length = 1 := by decide +kernel
  obtain ⟨first, rest, htour, -, htotals, hfound⟩ := next_links_enumerate hroll hlength hpath page
  rw [htotal] at htotals
  rw [hstart] at hfound
  refine ⟨by decide +kernel, hpath, hroll, hlength, first, rest, htour, htotals,
    Backend.map_id_of_found hfound, ?_⟩
  rintro rfl
  -- The first page has a link forth, so it is not the last one.
  cases htour with
  | last hshown hlink =>
    obtain ⟨shown, hvalue, hpage, -⟩ := hroll.run_page hlength page target.path
    obtain rfl := Except.ok.inj (hshown.symm.trans hvalue)
    have hnext : (page.linksIn ids).next ≠ none := by decide +kernel
    exact hnext (hpage.link?_eq_none.mp hlink)
  | more _ _ _ hothers => cases hothers

end Service

end Roster
