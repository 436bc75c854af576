import Roster.Proofs.FirstStage
import Roster.Proofs.Navigation
import Roster.Proofs.Overflow

/-!
# What a page shows

The window into a list is computed with clamped words. What is meant is simpler: some members are
passed over, and of the rest as many are shown as are asked for (`PageRequest.skipped`,
`PageRequest.wanted`). A listing comes to that in any surroundings, whatever faults its calls meet
(`page_shown`): these members are looked up one after another, up to the first that is not found, and
no others are. The page is shown if all of them are found.
-/

namespace Roster

open Service Attempt Text

/-! ### What is asked for -/

namespace PageRequest

/-- How many members are passed over: the offset, blanks around it aside, if that is a positive 64-bit
number, and else none. -/
def skipped (r : PageRequest) : Nat :=
  match r.offset.bind fun s => readWord? (trim s.toList) with
  | some o => if 0 < o then o.toNat else 0
  | none => 0

/-- How many members are asked for: the limit if it is positive, but no more than a hundred, and else
twenty. -/
def wanted (r : PageRequest) : Nat :=
  match r.limit with
  | some l => if 0 < l then min l.toNat 100 else 20
  | none => 20

theorem toNat_start (r : PageRequest) : r.start.toNat = r.skipped := by
  rw [start, skipped]
  -- An offset that is missing or no numeral counts as zero, and a negative one too.
  cases hoffset : r.offset.bind fun s => readWord? (trim s.toList) with
  | none => rfl
  | some o =>
    -- A numeral that is read names a number of 64 bits.
    have hword : isWord o = true := by
      obtain ⟨s, -, hread⟩ := Option.bind_eq_some_iff.mp hoffset
      exact (Option.filter_eq_some_iff.mp hread).2
    rw [isWord, Bool.and_eq_true, decide_eq_true_eq, decide_eq_true_eq] at hword
    have hfits : o.toNat < UInt64.size := by
      rw [UInt64.size]
      omega
    rw [Option.getD_some, Nat.toUInt64_eq, UInt64.toNat_ofNat_of_lt' hfits]
    dsimp only
    split_ifs <;> omega

theorem toNat_size (r : PageRequest) : r.size.toNat = r.wanted := by
  have hgreatest := toNat_greatestLimit
  rw [size, wanted]
  cases r.limit with
  | none => rfl
  | some l =>
    dsimp only
    -- The limit is not positive, small enough or too great.
    split_ifs with hnone hpos hsmall
    · omega
    · rfl
    · rw [toNat_toUInt64 (by omega)]
      omega
    · omega
    · omega
    · omega

theorem toNat_size_lt (r : PageRequest) : r.size.toNat < 2 ^ 62 :=
  r.size_le.trans_lt (by decide)

/-- What a window shows is what is asked for. -/
theorem items_window {α : Type} {l : List α} (hlength : l.length < 2 ^ 62) (page : PageRequest) :
    (Window.of l.length.toUInt64 page.start page.size).items l =
      (l.drop page.skipped).take page.wanted := by
  rw [Window.items_of hlength page.toNat_size_lt, page.toNat_start, page.toNat_size]

/-- The page of a list of members that shows some identities. -/
def listing (page : PageRequest) (path : String) (ids : List Uuid) (identities : List Identity) :
    Listing :=
  let window := Window.of ids.length.toUInt64 page.start page.size
  ⟨identities, ids.length, path, PageLinks.around identities.length.toUInt64 window.offset
    window.limit ids.length.toUInt64⟩

/-- The links of a page that shows no more identities than there are members overflow nowhere. -/
theorem checkedAround_listing {ids : List Uuid} {identities : List Identity}
    (hlength : ids.length < 2 ^ 62) (hfew : identities.length ≤ ids.length) (page : PageRequest)
    (path : String) :
    let window := Window.of ids.length.toUInt64 page.start page.size
    PageLinks.checkedAround identities.length.toUInt64 window.offset window.limit
      ids.length.toUInt64 = some (page.listing path ids identities).links := by
  -- Both counts are of items in a list that a word can count.
  have hcount : ids.length.toUInt64.toNat < 2 ^ 62 := (toNat_toUInt64 hlength).trans_lt hlength
  have hsize : identities.length.toUInt64.toNat < 2 ^ 62 := by
    rw [toNat_toUInt64 (by omega)]
    omega
  exact PageLinks.checkedAround_of hcount hsize page.toNat_size_lt

end PageRequest

/-! ### Looking up members in a row -/

/-- A row up to its first element that does not pass, which is the last one. -/
def throughFirstFailure {α : Type} (passes : α → Bool) : List α → List α
  | [] => []
  | a :: rest => if passes a then a :: throughFirstFailure passes rest else [a]

namespace Backend

variable {b w : Backend} {plan : Nat → Faults} {faults : Faults} {n : Nat}

/-- What comes of looking up an identity as the call of a number. -/
def identityAt (b : Backend) (plan : Nat → Faults) (x : Uuid × Nat) : Result (Option Identity) :=
  (b.meeting (plan x.2)).find (.identity x.1)

/-- Whether an identity is found by the call of a number. -/
def finds (b : Backend) (plan : Nat → Faults) (x : Uuid × Nat) : Bool :=
  match b.identityAt plan x with
  | .ok (some _) => true
  | _ => false

theorem finds_iff {x : Uuid × Nat} :
    b.finds plan x = true ↔ ∃ identity, b.identityAt plan x = .ok (some identity) := by
  rw [finds]
  rcases b.identityAt plan x with f | _ | identity <;> simp

theorem calls_member (id : Uuid) :
    calls (answerUnder plan) (w.meeting faults, n) (member id) = [.find (.identity id)] := by
  have hfind : result (answerUnder plan) (w.meeting faults, n) (Service.find (.identity id)) =
      .ok (w.identityAt plan (id, n)) := rfl
  -- What is made of the answer asks nothing, whatever the answer is.
  rw [member, entry, calls_bind_of_ok hfind]
  rcases w.identityAt plan (id, n) with f | _ | identity <;> rfl

/-- Looking up members in a row comes to what the lookups come to, with one call after another. -/
theorem result_members (ids : List Uuid) :
    result (answerUnder plan) (w.meeting faults, n) (ids.mapM member) =
      (ids.zipIdx n).mapM fun x => entryOf .serverError .unknownMember (w.identityAt plan x) := by
  induction ids generalizing faults n with
  | nil => rfl
  | cons id rest ih =>
    -- Whatever the first lookup comes to, the second one meets the faults of the next moment.
    obtain ⟨hresult, hafter⟩ := result_member w plan id
    rw [List.mapM_cons, result_bind, hresult, hafter, List.zipIdx_cons, List.mapM_cons]
    refine congrArg _ (funext fun identity => ?_)
    rw [result_bind, ih]
    rfl

/-- Members are looked up one after another, up to the first that is not found. -/
theorem calls_members (ids : List Uuid) :
    calls (answerUnder plan) (w.meeting faults, n) (ids.mapM member) =
      (throughFirstFailure (w.finds plan) (ids.zipIdx n)).map fun x => .find (.identity x.1) := by
  induction ids generalizing faults n with
  | nil => rfl
  | cons id rest ih =>
    obtain ⟨hresult, hafter⟩ := result_member w plan id
    change _ = entryOf .serverError .unknownMember (w.identityAt plan (id, n)) at hresult
    rw [List.mapM_cons, calls_bind, calls_member, hresult, hafter, List.zipIdx_cons,
      throughFirstFailure, finds]
    -- A lookup that fails or finds nothing is the last call; behind another one the rest follows.
    rcases w.identityAt plan (id, n) with f | _ | identity
    · rfl
    · rfl
    · show _ :: calls _ _ (rest.mapM member >>= fun others => pure (identity :: others)) = _
      rw [← map_eq_pure_bind, calls_map, ih]
      rfl

theorem map_id_of_identityAt {ids : List Uuid} {identities : List Identity}
    (h : List.Forall₂ (fun x identity => b.identityAt plan x = .ok (some identity)) (ids.zipIdx n)
      identities) : identities.map (·.id) = ids := by
  -- What is found for an identity has that identity.
  have hids : List.Forall₂ (fun (x : Uuid × Nat) (identity : Identity) => x.1 = identity.id)
      (ids.zipIdx n) identities := h.imp fun _ _ hfound => (id_of_find hfound).symm
  rw [← map_eq_map_of_forall₂ hids, List.zipIdx_map_fst]

/-! ### Listing a page -/

/-- The text names a space whose resource is found, whose policy is fetched, and whose members can be
read. -/
structure Opens (b : Backend) (plan : Nat → Faults) (text : String) (space : Uuid)
    (resource : SpaceResource) (ids : List Uuid) : Prop where
  /-- The text is that of the space. -/
  parsed : Uuid.parse? text = some space
  /-- The first call meets no fault. -/
  looked : (plan 0).resource = none
  /-- The space has a resource. -/
  found : b.directory.find? (.resource space) = some resource
  /-- The second call meets no fault. -/
  fetched : (plan 1).fetch = none
  /-- The resource has a policy that lists the members. -/
  listed : ∃ policy, b.store.get? resource.policyId = some policy ∧ policy.members = .ok ids

section

variable {text : String} {space : Uuid} {resource : SpaceResource} {ids : List Uuid}

/-- Finding and fetching the policy of a space that can be opened. -/
theorem Opens.run_fetchOf (h : b.Opens plan text space resource ids) :
    ∃ policy token, policy.members = .ok ids ∧
      result (answerUnder plan) (b, 0) (fetchOf space) = .ok (policy, token) ∧
      after (answerUnder plan) (b, 0) (fetchOf space) = (b.afterFetch.meeting (plan 1), 2) ∧
      calls (answerUnder plan) (b, 0) (fetchOf space) =
        [.find (.resource space), .fetch resource.policyId] := by
  obtain ⟨policy, hpolicy, hids⟩ := h.listed
  -- The search is an action of its own, so its result and its calls are stated for it.
  let search : Action SpaceResource :=
    consult (I := interface) (.find (.resource space)) (entryOf .notFound .unknownResource)
  have hresource : result (answerUnder plan) (b, 0) search = .ok resource := by
    have hfound : (b.meeting (plan 0)).find (.resource space) = .ok (some resource) := by
      show failingWith (plan 0).resource (.ok (b.directory.find? (.resource space))) = _
      rw [h.looked, h.found]
      rfl
    exact entryOf_eq_ok.mpr hfound
  have hafter : after (answerUnder plan) (b, 0) search = (b.meeting (plan 0), 1) := rfl
  -- The fetch is the second call, and it meets the faults of the second moment.
  have hfetch : answerUnder plan (.fetch resource.policyId) (b.meeting (plan 0), 1) =
      (.ok (policy, PolicyStore.token (b.store.issued + 1)), b.afterFetch.meeting (plan 1), 2) := by
    rw [answerUnder_meeting, answer_fetch (b := b.meeting (plan 1)) h.fetched hpolicy]
    rfl
  refine ⟨policy, PolicyStore.token (b.store.issued + 1), hids, ?_⟩
  rw [fetchOf_eq, result_bind, after_bind_of_ok hresource, calls_bind_of_ok hresource, hresource,
    hafter]
  refine ⟨?_, ?_, rfl⟩
  · exact congrArg (fun answer => Result.as .serverError answer.1) hfetch
  · exact congrArg Prod.snd hfetch

/-- Where the policy of a space can be opened, it is fetched, and what the listing comes to is what
looking up the members on the page comes to. -/
theorem Opens.run_list (h : b.Opens plan text space resource ids) (page : PageRequest)
    (path : String) :
    let lookups := ((Window.of ids.length.toUInt64 page.start page.size).items ids).mapM member
    let state := (b.afterFetch.meeting (plan 1), 2)
    result (answerUnder plan) (b, 0) (list text page path) =
        (result (answerUnder plan) state lookups).map (page.listing path ids) ∧
      calls (answerUnder plan) (b, 0) (list text page path) =
        .find (.resource space) :: .fetch resource.policyId ::
          calls (answerUnder plan) state lookups := by
  intro lookups state
  obtain ⟨policy, token, hids, hfetch, hstate, hcalls⟩ := h.run_fetchOf
  have hspace : result (answerUnder plan) (b, 0) (ofResult (idOf .malformedSpace text)) =
      .ok space := idOf_eq_ok.mpr h.parsed
  have hfetched : result (answerUnder plan) (b, 0)
      ((fetchOf space).through "s:list_collaborators") = .ok (policy, token) := by
    rw [result_through, hfetch]
    rfl
  -- With a list that can be read, what is behind the fetch are the lookups on the page.
  have hlisted : Service.listed space page path policy =
      page.listing path ids <$> lookups := by
    have hmembers : membersOf space policy = pure ids := by
      rw [membersOf, hids]
    rw [Service.listed, hmembers, pure_bind, map_eq_pure_bind]
    rfl
  -- Reading the text makes no call; the fetch makes two, and the lookups come behind them.
  rw [list_eq, result_bind, hspace, calls_bind_of_ok hspace, after_ofResult, calls_ofResult]
  constructor
  · show result _ _ ((fetchOf space).through _ >>= _) = _
    rw [result_bind, hfetched, after_through, hstate]
    show result _ _ (Service.listed space page path policy) = _
    rw [hlisted, result_map]
  · rw [List.nil_append, calls_bind_of_ok hfetched, calls_through, after_through, hcalls, hstate,
      hlisted, calls_map]
    rfl

/-- When a listing succeeds, and what it shows: every lookup of a member on the page finds
something. -/
theorem Opens.list_eq_ok (h : b.Opens plan text space resource ids) (hlength : ids.length < 2 ^ 62)
    {page : PageRequest} {path : String} {shown : Listing} :
    result (answerUnder plan) (b, 0) (list text page path) = .ok shown ↔ ∃ identities,
      List.Forall₂ (fun x identity => b.identityAt plan x = .ok (some identity))
        (((ids.drop page.skipped).take page.wanted).zipIdx 2) identities ∧
      page.listing path ids identities = shown := by
  rw [(h.run_list page path).1, PageRequest.items_window hlength, result_members]
  simp only [map_eq_ok, mapM_eq_ok, entryOf_eq_ok]
  -- Behind the fetch the directory is the same, and so is what lookups come to.
  exact Iff.rfl

/-- The calls of a listing: the members on the page are looked up, up to the first that is not
found. -/
theorem Opens.calls_list (h : b.Opens plan text space resource ids) (hlength : ids.length < 2 ^ 62)
    (page : PageRequest) (path : String) :
    calls (answerUnder plan) (b, 0) (list text page path) =
      .find (.resource space) :: .fetch resource.policyId ::
        (throughFirstFailure (b.finds plan)
          (((ids.drop page.skipped).take page.wanted).zipIdx 2)).map
            fun x => .find (.identity x.1) := by
  rw [(h.run_list page path).2, PageRequest.items_window hlength, calls_members]
  rfl

end

/-- A listing leaves the policies as they are. -/
theorem policies_list (b : Backend) (plan : Nat → Faults) (text : String) (page : PageRequest)
    (path : String) :
    (after (answerUnder plan) (b, 0) (list text page path)).1.store.policies =
      b.store.policies := by
  have hshows := Program.shows_run (answerUnder plan) (list text page path).run (b, 0)
  have hanswers := answers_run (answerUnder plan) (list text page path).run (b, 0)
  -- All calls of a listing read, so the policies are credible from the first state to the last.
  exact ((serves_answerUnder plan).credible hanswers fun e he =>
    Call.isStore_of_reads (list_only text page path _ _ hshows e he)).2.1

end Backend

namespace Service

/-- **What a page shows.** Where the policy of a space can be opened, and whatever faults the calls
meet behind that:

* The members on the page are looked up one after another, up to the first that is not found. Nobody
  else is.
* The listing succeeds if and only if all of them are found. Then it shows what was found for them,
  in order, and the total is the length of the list.
* The window into the list overflows nowhere, its bounds are in order and in the list, and what lies
  between them are the members on the page. Neither do the links overflow anywhere, or divide by
  zero.
* The policies stay as they are.
-/
theorem page_shown {b : Backend} {plan : Nat → Faults} {text : String} {space : Uuid}
    {resource : SpaceResource} {ids : List Uuid} (hopens : b.Opens plan text space resource ids)
    (hlength : ids.length < 2 ^ 62) (page : PageRequest) (path : String) :
    let run := Program.run (Backend.answerUnder plan) (list text page path).run (b, 0)
    let shown := (ids.drop page.skipped).take page.wanted
    let lookups := shown.zipIdx 2
    run.calls = .find (.resource space) :: .fetch resource.policyId ::
        (throughFirstFailure (b.finds plan) lookups).map (fun x => .find (.identity x.1)) ∧
      ((∃ listing, run.value = .ok listing) ↔ ∀ x ∈ lookups, b.finds plan x = true) ∧
      (∀ listing, run.value = .ok listing →
        List.Forall₂ (fun x identity => b.identityAt plan x = .ok (some identity)) lookups
          listing.identities ∧
        listing.identities.map (·.id) = shown ∧ listing.total = ids.length) ∧
      (∃ window, Window.checkedOf ids.length.toUInt64 page.start page.size = some window ∧
        window.slice? ids = some shown ∧
        ∀ listing, run.value = .ok listing →
          PageLinks.checkedAround listing.identities.length.toUInt64 window.offset window.limit
            ids.length.toUInt64 = some listing.links) ∧
      run.state.1.store.policies = b.store.policies := by
  intro run shown lookups
  have hcount : ids.length.toUInt64.toNat < 2 ^ 62 := (toNat_toUInt64 hlength).trans_lt hlength
  have hok {listing : Listing} : run.value = .ok listing ↔ ∃ identities,
      List.Forall₂ (fun x identity => b.identityAt plan x = .ok (some identity)) lookups
        identities ∧ page.listing path ids identities = listing := hopens.list_eq_ok hlength
  let window := Window.of ids.length.toUInt64 page.start page.size
  -- The window shows what is asked for, since its sums are exact.
  have hslice : window.slice? ids = some shown := by
    rw [Window.slice?_of hlength page.toNat_size_lt, PageRequest.items_window hlength]
  refine ⟨hopens.calls_list hlength page path, ⟨?_, fun hall => ?_⟩, fun listing hlisting => ?_,
    ⟨window, Window.checkedOf_eq hcount page.toNat_size_lt page.start, hslice,
      fun listing hlisting => ?_⟩, b.policies_list plan text page path⟩
  · -- Whoever is on the page is found, as the row of identities has one for each.
    rintro ⟨listing, hlisting⟩ x hx
    obtain ⟨identities, hfound, -⟩ := hok.mp hlisting
    exact Backend.finds_iff.mpr (exists_of_mem_forall₂ hfound hx)
  · -- All are found, so there is a row of identities, and the listing is made of it.
    obtain ⟨identities, hfound⟩ := exists_forall₂ fun x hx => Backend.finds_iff.mp (hall x hx)
    exact ⟨_, hok.mpr ⟨identities, hfound, rfl⟩⟩
  · obtain ⟨identities, hfound, rfl⟩ := hok.mp hlisting
    exact ⟨hfound, Backend.map_id_of_identityAt hfound, rfl⟩
  · obtain ⟨identities, hfound, rfl⟩ := hok.mp hlisting
    -- No more identities are shown than there are members.
    have hfew : identities.length ≤ ids.length := by
      rw [← hfound.length_eq, List.length_zipIdx, List.length_take, List.length_drop]
      omega
    exact page.checkedAround_listing hlength hfew path

/-- A member that cannot be found does not matter on a page beside it. -/
theorem page_beside_stranger :
    let ids : List Uuid := [.uniform 1, .uniform 2, .uniform 9, .uniform 3]
    let b : Backend := { Backend.sample with
      store := { policies := [("policy", .listing "policy" ids)] } }
    let page : PageRequest := ⟨some " +1 ", some 1⟩
    let run := Program.run (Backend.answerUnder fun _ => {})
      (list (Uuid.uniform 0).text page "/").run (b, 0)
    b.Opens (fun _ => {}) (Uuid.uniform 0).text (.uniform 0) ⟨.uniform 0, "policy"⟩ ids ∧
      ids.length < 2 ^ 62 ∧
      run.calls = [.find (.resource (.uniform 0)), .fetch "policy",
        .find (.identity (.uniform 2))] ∧
      ∃ listing, run.value = .ok listing ∧ listing.identities.map (·.id) = [.uniform 2] ∧
        listing.total = 4 := by
  intro ids b page run
  have hopens : b.Opens (fun _ => {}) (Uuid.uniform 0).text (.uniform 0) ⟨.uniform 0, "policy"⟩
      ids :=
    ⟨by decide +kernel, rfl, rfl, rfl, .listing "policy" ids, rfl, MemberList.decode_encode ids⟩
  have hlength : ids.length < 2 ^ 62 := by decide
  obtain ⟨hcalls, hsucceeds, hshows, -⟩ := page_shown hopens hlength page "/"
  -- The offset is trimmed and has a sign, which is no obstacle.
  have hskipped : page.skipped = 1 := by decide +kernel
  have hwanted : page.wanted = 1 := rfl
  rw [hskipped, hwanted] at hcalls hsucceeds hshows
  obtain ⟨listing, hlisting⟩ := hsucceeds.mpr (by decide +kernel)
  obtain ⟨-, hids, htotal⟩ := hshows listing hlisting
  exact ⟨hopens, hlength, hcalls, listing, hlisting, hids, htotal⟩

end Service

end Roster
