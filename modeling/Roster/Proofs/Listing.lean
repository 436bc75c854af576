import Mathlib.Data.List.Forall2
import Roster.Proofs.Effect

/-!
# What a listing shows

Where lookups have fixed answers, what comes of listing a page is decided by them and by the policy
that is fetched (`Oracle.listing`). So a listing that succeeds can be said without the program
(`Backend.list_eq_ok`): the policy of the space is there and lists members, and those on the page
are found one by one.

Where the policy of a space lists members that are all found, any page can be listed, and it shows
the members in its window (`Backend.Roll.run_list`).
-/

namespace Roster

open Service Attempt

variable {o : Oracle} {b : Backend} {text path : String} {page : PageRequest} {policy : Policy}
  {ids : List Uuid} {identities : List Identity}

/-! ### What the answers decide -/

namespace Oracle

/-- The identities of members, or why one of them cannot be shown. -/
def identitiesOf (o : Oracle) (ids : List Uuid) : Result (List Identity) :=
  ids.mapM fun id => entryOf .serverError .unknownMember (o.find (.identity id))

/-- What comes of listing a page of the members of a policy. -/
def listing (o : Oracle) (page : PageRequest) (path : String) (policy : Policy) : Result Listing :=
  (policy.members.mapError (·.failure)).bind fun ids =>
    let window := Window.of ids.length.toUInt64 page.start page.size
    (o.identitiesOf (window.items ids)).bind fun identities => .ok {
      identities
      total := ids.length
      path
      links := PageLinks.around identities.length.toUInt64 window.offset window.limit
        ids.length.toUInt64 }

theorem identitiesOf_eq_ok :
    o.identitiesOf ids = .ok identities ↔
      List.Forall₂ (fun id identity => o.find (.identity id) = .ok (some identity)) ids
        identities := by
  rw [identitiesOf, mapM_eq_ok]
  simp only [entryOf_eq_ok]

theorem exists_identitiesOf (h : ∀ id ∈ ids, o.Knows id) :
    ∃ identities, o.identitiesOf ids = .ok identities := by
  simp only [identitiesOf_eq_ok]
  exact exists_forall₂ h

end Oracle

/-! ### What remains of a listing -/

theorem settles_member (id : Uuid) :
    Settles o (member id) (entryOf .serverError .unknownMember (o.find (.identity id))) := by
  have hfind : Settles o (find (.identity id)) (.ok (o.find (.identity id))) := rfl
  rw [member, entry, Settles, settle_bind_of_ok hfind]
  -- The lookup fails, finds nothing or finds an identity; nothing is asked afterwards.
  rcases o.find (.identity id) with f | _ | identity <;> rfl

theorem settles_mapM {α β : Type} {f : α → Action β} {g : α → Result β}
    (h : ∀ a, Settles o (f a) (g a)) (l : List α) : Settles o (l.mapM f) (l.mapM g) := by
  induction l with
  | nil => rfl
  | cons a rest ih =>
    rw [List.mapM_cons, List.mapM_cons]
    -- The results of the members are put together as the members themselves are.
    exact (h a).bind fun value => ih.bind fun others => rfl

theorem settles_listed (space : Uuid) (page : PageRequest) (path : String) (policy : Policy) :
    Settles o (listed space page path policy) (o.listing page path policy) := by
  -- Reading the list asks nothing, whether it can be read or not.
  have hmembers : Settles o (membersOf space policy) (policy.members.mapError (·.failure)) := by
    rw [membersOf]
    cases policy.members <;> rfl
  refine hmembers.bind fun ids => ?_
  exact (settles_mapM settles_member _).bind fun identities => rfl

/-- A transaction that finds out something about a policy stores nothing. -/
theorem Transaction.follow_ofReading {α : Type} (name : String) (read : Policy → Result α)
    (failed : Failure → Failure) (token : ProtectionToken) (policy : Policy) :
    (ofReading name read failed).follow token ((ofReading name read failed).resolve policy) =
      .done (read policy) := by
  show follow _ token ((read policy).map _) = _
  cases read policy <;> rfl

/-- What remains of a listing is decided by finding the resource of the space: the policy is fetched
and nothing is stored. -/
theorem list_reduces (text : String) (page : PageRequest) (path : String) :
    Reduces o (list text page path)
      ((idOf .malformedSpace text).bind fun id => Result.through "s:list_collaborators"
        (entryOf .notFound .unknownResource (o.find (.resource id))))
      fun resource => .ofReading resource.policyId (o.listing page path) fun f =>
        (f.as .serverError).through "s:list_collaborators" := by
  rw [list_eq]
  -- Reading the text and finding the resource come first, and only the latter asks.
  refine .bind (settles_ofResult _) fun id => ?_
  rw [fetchOf_eq, through_bind, bind_assoc, consult_through]
  refine .of_settles (settles_find (.resource id) _) fun resource : SpaceResource => ?_
  let t : Transaction Listing := .ofReading resource.policyId (o.listing page path) fun f =>
    (f.as .serverError).through "s:list_collaborators"
  rw [consult_through]
  refine settle_fetch_bind t (fun r => by cases r <;> rfl) fun policy token => ?_
  -- Behind the fetch there are lookups only, so a result remains.
  have hlisted : Settles o (listed id page path policy) (o.listing page path policy) :=
    settles_listed id page path policy
  exact hlisted.trans (Transaction.follow_ofReading _ _ _ token policy).symm

/-! ### Listings that succeed -/

/-- When a transaction that stores nothing succeeds against a backend: it can fetch a policy and
finds out something about it. -/
theorem Transaction.run_ofReading_eq_ok {α : Type} {name : String} {read : Policy → Result α}
    {failed : Failure → Failure} {value : α} :
    ((ofReading name read failed).program.run Backend.answer b).value = .ok value ↔
      b.faults.fetch = none ∧ ∃ policy, b.store.get? name = some policy ∧
        read policy = .ok value := by
  -- Nothing is stored, so what is found out is the value and there is no changed policy.
  have hresolve (policy : Policy) (changed : Option Policy) :
      (ofReading name read failed).resolve policy = .ok (value, changed) ↔
        read policy = .ok value ∧ changed = none := by
    show (read policy).map _ = _ ↔ _
    cases read policy <;> simp [Except.map, eq_comm]
  constructor
  · intro h
    obtain ⟨hfault, policy, changed, hpolicy, hread, -⟩ := run_answer_eq_ok.mp ⟨h, rfl⟩
    exact ⟨hfault, policy, hpolicy, ((hresolve policy changed).mp hread).1⟩
  · rintro ⟨hfault, policy, hpolicy, hread⟩
    exact (run_answer_eq_ok.mpr ⟨hfault, policy, none, hpolicy,
      (hresolve policy none).mpr ⟨hread, rfl⟩, fun hne => absurd rfl hne, rfl⟩).1

/-- When a listing of a policy succeeds, and what it shows. -/
theorem Oracle.listing_eq_ok {shown : Listing} :
    o.listing page path policy = .ok shown ↔
      ∃ ids identities, policy.members = .ok ids ∧
        let window := Window.of ids.length.toUInt64 page.start page.size
        o.identitiesOf (window.items ids) = .ok identities ∧
        shown = ⟨identities, ids.length, path, PageLinks.around identities.length.toUInt64
          window.offset window.limit ids.length.toUInt64⟩ := by
  -- Either side takes the same two steps, reading the list and finding the identities.
  simp only [listing, bind_eq_ok, mapError_eq_ok, Except.ok.injEq]
  constructor
  · rintro ⟨ids, hids, identities, hidentities, rfl⟩
    exact ⟨ids, identities, hids, hidentities, rfl⟩
  · rintro ⟨ids, identities, hids, hidentities, rfl⟩
    exact ⟨ids, hids, identities, hidentities, rfl⟩

namespace Backend

/-- When a listing succeeds: the policy of the space can be fetched, and then the page can be
listed. -/
theorem list_eq_ok {shown : Listing} :
    (b.run (list text page path)).value = .ok shown ↔
      b.faults.fetch = none ∧ ∃ space resource policy, Uuid.parse? text = some space ∧
        b.find (.resource space) = .ok (some resource) ∧
        b.store.get? resource.policyId = some policy ∧
        b.oracle.listing page path policy = .ok shown := by
  have hlocated {resource : SpaceResource} :
      ((idOf .malformedSpace text).bind fun id => Result.through "s:list_collaborators"
        (entryOf .notFound .unknownResource (b.oracle.find (.resource id)))) = .ok resource ↔
      ∃ space, Uuid.parse? text = some space ∧ b.find (.resource space) = .ok (some resource) := by
    simp only [bind_eq_ok, idOf_eq_ok, Result.through_eq_ok, entryOf_eq_ok]
    exact Iff.rfl
  -- What remains of the listing is a transaction, behind the location of the policy.
  obtain ⟨hvalue, -⟩ := b.run_settle (list text page path).run
  rw [run, ← hvalue, list_reduces]
  cases hresource : (idOf .malformedSpace text).bind fun id => Result.through "s:list_collaborators"
      (entryOf .notFound .unknownResource (b.oracle.find (.resource id))) with
  | error f =>
    -- A space that is not located lists nothing, and the right side would locate it.
    constructor
    · intro hfailed
      cases hfailed
    · rintro ⟨-, space, resource, policy, hspace, hfound, -⟩
      rw [hlocated.mpr ⟨space, hspace, hfound⟩] at hresource
      cases hresource
  | ok resource =>
    rw [Transaction.run_ofReading_eq_ok]
    -- The location has one value, so both sides are about the policy of one resource.
    refine and_congr_right fun _ => ?_
    constructor
    · rintro ⟨policy, hpolicy, hlisting⟩
      obtain ⟨space, hspace, hfound⟩ := hlocated.mp hresource
      exact ⟨space, resource, policy, hspace, hfound, hpolicy, hlisting⟩
    · rintro ⟨space, other, policy, hspace, hfound, hpolicy, hlisting⟩
      obtain rfl : resource = other :=
        Except.ok.inj (hresource.symm.trans (hlocated.mpr ⟨space, hspace, hfound⟩))
      exact ⟨policy, hpolicy, hlisting⟩

/-- The text names a space, whose policy can be fetched and lists the members, and all of these are
found. -/
structure Roll (b : Backend) (text : String) (ids : List Uuid) : Prop where
  /-- Policies can be fetched. -/
  fetch : b.faults.fetch = none
  /-- The policy of the space lists the members. -/
  listed : ∃ space resource policy, Uuid.parse? text = some space ∧
    b.find (.resource space) = .ok (some resource) ∧
    b.store.get? resource.policyId = some policy ∧ policy.members = .ok ids
  /-- The members are found. -/
  known : ∀ id ∈ ids, b.oracle.Knows id

/-- An identity that is found is the one that was looked up. -/
theorem id_of_find {id : Uuid} {identity : Identity}
    (h : b.find (.identity id) = .ok (some identity)) : identity.id = id := by
  have hfound : b.directory.find? (.identity id) = some identity :=
    Except.ok.inj (failingWith_eq_ok h)
  rw [Directory.find?] at hfound
  have hid := List.find?_some hfound
  exact of_decide_eq_true hid

theorem map_id_of_found (h : List.Forall₂
    (fun id identity => b.find (.identity id) = .ok (some identity)) ids identities) :
    identities.map (·.id) = ids := by
  have hids : List.Forall₂ (fun id (identity : Identity) => id = identity.id) ids identities :=
    h.imp fun _ _ hfound => (id_of_find hfound).symm
  rw [← map_eq_map_of_forall₂ hids, List.map_id']

/-- Any page of members that are all found can be listed, and shows what is found for the members in
its window. -/
theorem Roll.run_list (h : b.Roll text ids) (page : PageRequest) (path : String) :
    let window := Window.of ids.length.toUInt64 page.start page.size
    ∃ identities, List.Forall₂ (fun id identity => b.find (.identity id) = .ok (some identity))
        (window.items ids) identities ∧
      (b.run (list text page path)).value = .ok ⟨identities, ids.length, path,
        PageLinks.around identities.length.toUInt64 window.offset window.limit
          ids.length.toUInt64⟩ := by
  intro window
  obtain ⟨space, resource, policy, hspace, hresource, hpolicy, hids⟩ := h.listed
  -- The items of a window are members, so they are found as all members are.
  have hpage : ∀ id ∈ window.items ids, b.oracle.Knows id := fun id hid =>
    h.known id (List.mem_of_mem_take (List.mem_of_mem_drop hid))
  obtain ⟨identities, hidentities⟩ := Oracle.exists_identitiesOf hpage
  refine ⟨identities, Oracle.identitiesOf_eq_ok.mp hidentities, ?_⟩
  exact list_eq_ok.mpr ⟨h.fetch, space, resource, policy, hspace, hresource, hpolicy,
    Oracle.listing_eq_ok.mpr ⟨ids, identities, hids, hidentities, rfl⟩⟩

end Backend

end Roster
