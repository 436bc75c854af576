import Roster.Proofs.Listing
import Roster.Proofs.Pool

/-!
# Every list that is stored can be shown

In a world in which every policy lists members whose identities are there, no requests at once,
whatever calls fail and even where a stale policy may overwrite a newer one, bring in a text that
lists nobody, an identity that is not there, or a repetition where there was none. So the members of
any space that has a policy can be listed, any page of them, as soon as no call fails
(`lists_stay_servable`).

What is kept is a property of the lists that every policy has, in the store and in the hands of
requests alike (`Policy.Carries`). To keep it, a change by an identity that is there has to keep it
(`Change.Preserves`): an identity is looked up before it is added, and whether it is a member
already is asked of the list that has been read, not of its text.
-/

namespace Roster

open Service

/-- The directory has an identity for the identifier. -/
def Directory.Knows (d : Directory) (id : Uuid) : Prop :=
  ∃ identity, d.find? (.identity id) = some identity

/-- The policy lists members, and the list is a good one. -/
def Policy.Carries (good : List Uuid → Prop) (p : Policy) : Prop :=
  ∃ ids, p.members = .ok ids ∧ good ids

/-- Good lists stay good when they are changed by an identity that is known. -/
def Change.Preserves (known : Uuid → Prop) (good : List Uuid → Prop) : Prop :=
  ∀ (c : Change) (id : Uuid) (ids : List Uuid), known id → good ids → good (c.members id ids)

namespace Change

variable {c : Change} {known : Uuid → Prop} {good good' : List Uuid → Prop} {xs : List Uuid}
  {p q : Policy}

/-- Members who are known stay so. -/
theorem preserves_known (known : Uuid → Prop) :
    Preserves known fun ids => ∀ id ∈ ids, known id := by
  intro c id ids hid hids
  cases c with
  | add =>
    show ∀ x ∈ if id ∈ ids then ids else ids ++ [id], known x
    -- An identity that is appended is the one of the change, which is known.
    split
    · exact hids
    · exact List.forall_mem_append.mpr ⟨hids, by simpa using hid⟩
  | remove => exact fun x hx => hids x (List.mem_of_mem_filter hx)

/-- A list without repetitions stays one. -/
theorem preserves_nodup (known : Uuid → Prop) : Preserves known List.Nodup := by
  intro c id ids _ hids
  cases c with
  | add =>
    show (if id ∈ ids then ids else ids ++ [id]).Nodup
    split
    · exact hids
    · -- It is appended only if it is new.
      rename_i hnew
      rw [← List.concat_eq_append]
      exact hids.concat hnew
  | remove => exact hids.filter _

theorem Preserves.and (h : Preserves known good) (h' : Preserves known good') :
    Preserves known fun ids => good ids ∧ good' ids :=
  fun c id ids hid hids => ⟨h c id ids hid hids.1, h' c id ids hid hids.2⟩

theorem Preserves.membersAfter (h : Preserves known good) (hxs : ∀ x ∈ xs, known x) :
    ∀ {ids : List Uuid}, good ids → good (c.membersAfter xs ids) := by
  induction xs with
  | nil => exact fun hids => hids
  | cons id rest ih =>
    intro ids hids
    obtain ⟨hid, hrest⟩ := List.forall_mem_cons.mp hxs
    exact ih hrest (h c id ids hid hids)

/-- A policy that carries a good list carries one after changes by identities that are known. -/
theorem Preserves.carries (h : Preserves known good) (hxs : ∀ x ∈ xs, known x) {before after : Bool}
    (happlied : c.applyEach xs (p, before) = .ok (q, after)) (hp : p.Carries good) :
    q.Carries good := by
  obtain ⟨ids, hids, hgood⟩ := hp
  -- The list is good after one change for each identity, and that is the list carried then.
  obtain ⟨hmembers, -⟩ := applyEach_eq_ok happlied
  exact ⟨c.membersAfter xs ids, hmembers ids hids, h.membersAfter hxs hgood⟩

end Change

namespace Service

variable {directory : Directory} {good : List Uuid → Prop}

/-- What holds of the backend all the time: the identities stay, and every policy carries a good
list. -/
structure Tended (directory : Directory) (good : List Uuid → Prop) (b : Backend) : Prop where
  /-- The identities stay. -/
  identities : b.directory.identities = directory.identities
  /-- Every policy carries a good list. -/
  carried : ∀ name policy, b.store.get? name = some policy → policy.Carries good

/-- What a request may rely on in an exchange: an identity that is found is known, and a policy that
is fetched carries a good list. -/
def Attested (directory : Directory) (good : List Uuid → Prop) : Exchanged → Prop
  | ⟨.find (.identity x), answer⟩ =>
    ∀ identity, answer = .ok (some identity) → directory.Knows x
  | ⟨.fetch _, answer⟩ => ∀ policy token, answer = .ok (policy, token) → policy.Carries good
  | _ => True

/-- What keeps all lists good: a policy that is stored carries a good list. -/
def Tending (good : List Uuid → Prop) : Call → Prop
  | .store policy _ => policy.Carries good
  | _ => True

/-! ### The backend -/

theorem Tended.attested {strict : Bool} (call : Call) (b : Backend) (h : Tended directory good b) :
    Attested directory good ⟨call, (Backend.answerWith strict call b).1⟩ := by
  have hserves := Backend.serves_answerWith strict
  cases call with
  | find lookup =>
    cases lookup with
    | identity x =>
      intro identity hidentity
      have hentry : some identity = b.directory.find? (.identity x) :=
        hserves.find (.identity x) b _ hidentity
      refine ⟨identity, ?_⟩
      -- The identities are the ones there were at the start, whatever else the directory has
      -- become.
      rw [hentry, Directory.find?, Directory.find?, h.identities]
    | space x => trivial
    | resource x => trivial
  | authorize caller x => trivial
  | fetch name =>
    intro policy token hpolicy
    exact h.carried name policy (hserves.fetch name b policy token hpolicy)
  | store policy token => trivial

theorem Tended.answer {strict : Bool} (call : Call) (b : Backend) (h : Tended directory good b)
    (hcall : Tending good call) :
    Tended directory good (Backend.answerWith strict call b).2 := by
  have hserves := Backend.serves_answerWith strict
  have hidentities : (Backend.answerWith strict call b).2.directory.identities =
      directory.identities := by
    rw [hserves.directory_eq call b, h.identities]
  -- A call that leaves the policies alone leaves every list good.
  have hsame (hpolicies : (Backend.answerWith strict call b).2.store.policies = b.store.policies) :
      Tended directory good (Backend.answerWith strict call b).2 := by
    refine ⟨hidentities, fun name policy hpolicy => h.carried name policy ?_⟩
    rwa [PolicyStore.get?, hpolicies] at hpolicy
  cases call with
  | find lookup => exact hsame (hserves.policies_eq _ b rfl)
  | authorize caller x => exact hsame (hserves.policies_eq _ b rfl)
  | fetch name => exact hsame (hserves.policies_eq _ b rfl)
  | store policy token =>
    cases hanswer : (Backend.answerWith strict (.store policy token) b).1 with
    | error f => exact hsame (hserves.rejected policy token b f hanswer)
    | ok _ =>
      refine ⟨hidentities, fun name other hother => ?_⟩
      rw [PolicyStore.get?, hserves.stored policy token b hanswer,
        PolicyStore.lookup_putIn] at hother
      -- The name leads to the policy that was stored, or to what was there before.
      split at hother
      · obtain rfl := Option.some.inj hother
        exact hcall
      · exact h.carried name other hother

/-! ### The requests -/

/-- Identities that have been looked up and found are known. -/
theorem Found.known {xs : List Uuid} {lookups : List Exchanged} (h : Found xs lookups)
    (hattested : ∀ e ∈ lookups, Attested directory good e) : ∀ x ∈ xs, directory.Knows x := by
  induction h with
  | nil => simp
  | cons hfirst _ ih =>
    obtain ⟨hlookup, hrest⟩ := List.forall_mem_cons.mp hattested
    -- That it was found is attested for the exchange in which it was looked up.
    obtain ⟨identity, rfl⟩ := hfirst
    exact List.forall_mem_cons.mpr ⟨hlookup identity rfl, ih hrest⟩

/-- A request makes only calls that keep all lists good. -/
theorem Request.tending (hgood : Change.Preserves directory.Knows good) (r : Request) :
    r.perform.run.Careful (Attested directory good) (Tending good) := by
  refine r.careful_of_stores (fun call hcall => ?_) fun policy token halteration heq hattested => ?_
  · cases call with
    | store policy token => cases hcall
    | _ => trivial
  · obtain ⟨-, space, opening, resource, fetched, lookups, xs, -, -, rfl, -, hfound, happlied⟩ :=
      halteration.store_eq heq
    -- The policy was fetched and every identity was found before.
    have hfetched : fetched.Carries good :=
      hattested ⟨.fetch resource.policyId, .ok (fetched, token)⟩ (by simp [held]) fetched token rfl
    have hknown : ∀ x ∈ xs, directory.Knows x :=
      hfound.known fun e he => hattested e (by simp [he])
    exact hgood.carries hknown happlied hfetched

/-- After any turns of any requests, every policy still carries a good list. -/
theorem tended_run {strict : Bool} {b : Backend} (hgood : Change.Preserves b.directory.Knows good)
    (hcarried : ∀ name policy, b.store.get? name = some policy → policy.Carries good)
    (requests : List Request) {turns : List (Turn Backend)}
    (hturns : ∀ change, .surroundings change ∈ turns → ∀ c : Backend,
      (change c).directory.identities = c.directory.identities ∧
        (change c).store.policies = c.store.policies) :
    Tended b.directory good ((Pool.mk b (requests.map (·.perform.run))).run
      (Backend.answerWith strict) turns).state := by
  refine Pool.run_invariant (fun call c hc => hc.attested call c)
    (fun call c hc hcall => hc.answer call c hcall) (fun change hchange c hc => ?_) ?_
    ⟨rfl, hcarried⟩
  · -- The surroundings may change anything but the identities and the policies.
    obtain ⟨hidentities, hpolicies⟩ := hturns change hchange c
    refine ⟨hidentities.trans hc.identities, fun name policy hpolicy => hc.carried name policy ?_⟩
    rwa [PolicyStore.get?, hpolicies] at hpolicy
  · intro program hprogram
    obtain ⟨r, -, rfl⟩ := List.mem_map.mp hprogram
    exact r.tending hgood

/-! ### Listings -/

/-- Where no call fails, the members of a policy whose identities are there can be listed. -/
theorem roll_of_carries {b : Backend} {text : String} {space : Uuid} {resource : SpaceResource}
    {policy : Policy} (hspace : Uuid.parse? text = some space)
    (hresource : b.directory.find? (.resource space) = some resource)
    (hpolicy : b.store.get? resource.policyId = some policy)
    (hcarries : policy.Carries fun ids => ∀ id ∈ ids, b.directory.Knows id) :
    ∃ ids, Backend.Roll { b with faults := {} } text ids := by
  obtain ⟨ids, hids, hknown⟩ := hcarries
  refine ⟨ids, rfl, ⟨space, resource, policy, hspace, ?_, hpolicy, hids⟩, fun id hid => ?_⟩
  · exact congrArg Except.ok hresource
  · -- Whoever is known is found once no call fails.
    obtain ⟨identity, hidentity⟩ := hknown id hid
    exact ⟨identity, congrArg Except.ok hidentity⟩

/-- **Every list that is stored can be shown.** Where every policy lists members whose identities
are in the directory, every policy does so after any turns of any requests, whether the store is
strict about tokens or not, and whatever becomes of spaces, faults, leave and tokens in between; and
if no list had a repetition, none has one. So as soon as no call fails, any page of the members of a
space can be listed, if the space has a resource and that has a policy. -/
theorem lists_stay_servable (strict : Bool) (b : Backend)
    (hservable : ∀ name policy, b.store.get? name = some policy →
      ∃ ids, policy.members = .ok ids ∧ ∀ id ∈ ids, b.directory.Knows id)
    (requests : List Request) (turns : List (Turn Backend))
    (hturns : ∀ change, .surroundings change ∈ turns → ∀ c : Backend,
      (change c).directory.identities = c.directory.identities ∧
        (change c).store.policies = c.store.policies) :
    let last := ((Pool.mk b (requests.map (·.perform.run))).run (Backend.answerWith strict)
      turns).state
    (∀ name policy, last.store.get? name = some policy →
      ∃ ids, policy.members = .ok ids ∧ ∀ id ∈ ids, b.directory.Knows id) ∧
    ((∀ name policy ids, b.store.get? name = some policy → policy.members = .ok ids → ids.Nodup) →
      ∀ name policy ids, last.store.get? name = some policy → policy.members = .ok ids →
        ids.Nodup) ∧
    ∀ text space resource policy, Uuid.parse? text = some space →
      last.directory.find? (.resource space) = some resource →
      last.store.get? resource.policyId = some policy →
      ∀ page path, ∃ listing,
        (Backend.run { last with faults := {} } (list text page path)).value = .ok listing := by
  intro last
  -- The lists stay readable with known identities, from which both other parts are proved.
  have hlast : Tended b.directory (fun ids => ∀ id ∈ ids, b.directory.Knows id) last :=
    tended_run (Change.preserves_known _) hservable requests hturns
  refine ⟨hlast.carried, fun hnodup name policy ids hpolicy hids => ?_, ?_⟩
  · -- Without repetitions at the start, that is one more property of all lists.
    have hboth : Tended b.directory
        (fun ids => (∀ id ∈ ids, b.directory.Knows id) ∧ ids.Nodup) last := by
      refine tended_run ((Change.preserves_known _).and (Change.preserves_nodup _)) ?_ requests
        hturns
      intro name policy hpolicy
      obtain ⟨ids, hids, hknown⟩ := hservable name policy hpolicy
      exact ⟨ids, hids, hknown, hnodup name policy ids hpolicy hids⟩
    obtain ⟨others, hothers, -, hdistinct⟩ := hboth.carried name policy hpolicy
    obtain rfl : ids = others := Except.ok.inj (hids.symm.trans hothers)
    exact hdistinct
  · intro text space resource policy hspace hresource hpolicy page path
    -- Known at the start means known now, since the identities are the same.
    have hknows (id : Uuid) : b.directory.Knows id → last.directory.Knows id := by
      rintro ⟨identity, hidentity⟩
      refine ⟨identity, ?_⟩
      rw [Directory.find?, hlast.identities]
      exact hidentity
    obtain ⟨ids, hids, hknown⟩ := hlast.carried _ policy hpolicy
    obtain ⟨members, hroll⟩ := roll_of_carries hspace hresource hpolicy
      ⟨ids, hids, fun id hid => hknows id (hknown id hid)⟩
    obtain ⟨identities, -, hlisting⟩ := hroll.run_list page path
    exact ⟨_, hlisting⟩

/-- The members of the sample space can be listed after two guests were added, one of them named
twice, where the later of two stores overwrote the earlier and the store is broken by now. -/
theorem sample_stays_servable :
    let space := (Uuid.uniform 0).text
    let requests : List Request :=
      [.change none (.addAll space ⟨some [some (Uuid.uniform 2).text, some (Uuid.uniform 2).text]⟩),
        .change none (.add space (Uuid.uniform 3).text)]
    let turns : List (Turn Backend) :=
      [.program 0, .program 0, .program 0, .program 1, .program 1, .program 1, .program 1,
        .program 0, .program 0, .program 1, .program 0,
        .surroundings fun b => { b with faults := { store := some PolicyStore.outdatedToken } }]
    let last := ((Pool.mk Backend.sample (requests.map (·.perform.run))).run
      (Backend.answerWith false) turns).state
    ((last.store.get? "policy").map (·.members.toOption)) = some (some [.uniform 1, .uniform 2]) ∧
    ∃ listing,
      (Backend.run { last with faults := {} } (list space {} "/")).value = .ok listing := by
  intro space requests turns last
  have hservable : ∀ name policy, Backend.sample.store.get? name = some policy →
      ∃ ids, policy.members = .ok ids ∧ ∀ id ∈ ids, Backend.sample.directory.Knows id := by
    intro name policy hpolicy
    let only : Policy := .listing "policy" [.uniform 1]
    -- The store holds a single policy, so whatever is found in it is that one.
    have hlookup : (if name = "policy" then some only else none) = some policy :=
      (PolicyStore.lookup_putIn "policy" name only []).symm.trans hpolicy
    split at hlookup
    · obtain rfl := Option.some.inj hlookup
      refine ⟨[.uniform 1], MemberList.decode_encode _, fun id hid => ?_⟩
      obtain rfl := List.mem_singleton.mp hid
      exact ⟨.nameless (.uniform 1), rfl⟩
    · cases hlookup
  -- The only change of the surroundings sets a fault, which touches neither.
  have hturns : ∀ change, .surroundings change ∈ turns → ∀ c : Backend,
      (change c).directory.identities = c.directory.identities ∧
        (change c).store.policies = c.store.policies := by
    intro change hchange c
    simp only [turns, List.mem_cons, List.not_mem_nil, or_false, false_or, reduceCtorEq,
      Turn.surroundings.injEq] at hchange
    subst hchange
    exact ⟨rfl, rfl⟩
  have hmembers : ((last.store.get? "policy").map (·.members.toOption)) =
      some (some [.uniform 1, .uniform 2]) := by
    decide +kernel
  obtain ⟨-, -, hlistings⟩ := lists_stay_servable false .sample hservable requests turns hturns
  have hspace : Uuid.parse? space = some (.uniform 0) := by decide +kernel
  refine ⟨hmembers, ?_⟩
  obtain ⟨policy, hpolicy, -⟩ := Option.map_eq_some_iff.mp hmembers
  have hresource : last.directory.find? (.resource (.uniform 0)) =
      some (⟨.uniform 0, "policy"⟩ : SpaceResource) := by
    decide +kernel
  exact hlistings space _ _ policy hspace hresource hpolicy {} "/"

end Service

end Roster
