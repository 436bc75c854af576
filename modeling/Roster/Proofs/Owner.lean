import Roster.Proofs.Backend
import Roster.Proofs.Pool
import Roster.Proofs.Transcript

/-!
# The owner of a space stays a member

However many requests are made at once, whatever calls fail, and even where a stale policy may
overwrite a newer one, the owner of a space stays in the member list of its policy
(`owner_stays`).

An invariant of the stored policies alone would not do, as requests hold policies that they fetched
and will store later. But every such policy was fetched while the invariant held, so it lists the
owner as well (`Vouched`); and what a request makes of a policy that lists the owner lists the owner
(`Alteration.sheltering`): to add takes nobody away, and a removal goes on only if no text that it
was given spells the owner it found. The texts are read once more when the changes are made, by the
same function, so no spelling slips through.
-/

namespace Roster

open Service

/-- The policy lists an identity as a member. -/
def Policy.Lists (p : Policy) (id : Uuid) : Prop :=
  ∃ ids, p.members = .ok ids ∧ id ∈ ids

/-- A policy lists an identity still after a row of changes that does not remove it. -/
theorem Change.lists_of_applyEach {c : Change} {xs : List Uuid} {p q : Policy} {x : Uuid}
    {before after : Bool} (h : c.applyEach xs (p, before) = .ok (q, after)) (hp : p.Lists x)
    (hkept : c = .remove → x ∉ xs) : q.Lists x := by
  obtain ⟨ids, hids, hx⟩ := hp
  obtain ⟨hmembers, -⟩ := applyEach_eq_ok h
  exact ⟨c.membersAfter xs ids, hmembers ids hids, mem_membersAfter hx hkept⟩

/-- The policy of a space lists the owner of the space. -/
def Backend.ListsOwner (b : Backend) (space owner : Uuid) : Prop :=
  ∃ found resource policy, b.directory.find? (.space space) = some found ∧ found.ownerId = owner ∧
    b.directory.find? (.resource space) = some resource ∧
    b.store.get? resource.policyId = some policy ∧ policy.Lists owner

/-- Spaces, resources and policies are the same. Identities, faults, the leave that is given and the
tokens may be others. -/
structure Backend.SameSpaces (b c : Backend) : Prop where
  /-- The spaces are the same. -/
  spaces : c.directory.spaces = b.directory.spaces
  /-- The resources are the same. -/
  resources : c.directory.resources = b.directory.resources
  /-- The policies are the same. -/
  policies : c.store.policies = b.store.policies

namespace Service

variable {directory : Directory} {name : String} {owner space : Uuid}

/-- What holds of the backend all the time: directory and policy names stay, and the policy of the
name lists the owner. -/
structure Sheltered (directory : Directory) (name : String) (owner : Uuid) (b : Backend) :
    Prop where
  /-- The spaces stay. -/
  spaces : b.directory.spaces = directory.spaces
  /-- The resources stay. -/
  resources : b.directory.resources = directory.resources
  /-- Every policy is under its own name. -/
  names : KeepsNames b.store.policies
  /-- The policy lists the owner. -/
  listed : ∃ policy, b.store.get? name = some policy ∧ policy.Lists owner

/-- What a request may rely on in an exchange: spaces and resources are found as they are, and a
policy that is fetched under the name lists the owner. -/
def Vouched (directory : Directory) (name : String) (owner : Uuid) : Exchanged → Prop
  | ⟨.find (.space x), answer⟩ =>
    ∀ found, answer = .ok (some found) → directory.find? (.space x) = some found
  | ⟨.find (.resource x), answer⟩ =>
    ∀ resource, answer = .ok (some resource) → directory.find? (.resource x) = some resource
  | ⟨.fetch fetched, answer⟩ =>
    ∀ policy token, answer = .ok (policy, token) →
      PolicyStore.nameOf policy = fetched ∧ (fetched = name → policy.Lists owner)
  | _ => True

/-- What keeps the owner in place: a policy that is stored under the name lists the owner. -/
def Sheltering (name : String) (owner : Uuid) : Call → Prop
  | .store policy _ => PolicyStore.nameOf policy = name → policy.Lists owner
  | _ => True

/-! ### The backend -/

/-- Where the owner is sheltered, the answers can be relied on. -/
theorem Sheltered.vouched {strict : Bool} (call : Call) (b : Backend)
    (h : Sheltered directory name owner b) :
    Vouched directory name owner ⟨call, (Backend.answerWith strict call b).1⟩ := by
  have hserves := Backend.serves_answerWith strict
  -- Only lookups of spaces and resources, and fetches, promise something.
  cases call with
  | find lookup =>
    cases lookup with
    | identity x => trivial
    | space x =>
      intro found hfound
      have hentry : some found = b.directory.find? (.space x) := hserves.find (.space x) b _ hfound
      rw [hentry, Directory.find?, Directory.find?, h.spaces]
    | resource x =>
      intro resource hresource
      have hentry : some resource = b.directory.find? (.resource x) :=
        hserves.find (.resource x) b _ hresource
      rw [hentry, Directory.find?, Directory.find?, h.resources]
  | authorize caller x => trivial
  | fetch fetched =>
    intro policy token hpolicy
    have hfetched : b.store.get? fetched = some policy :=
      hserves.fetch fetched b policy token hpolicy
    refine ⟨h.names fetched policy hfetched, fun hname => ?_⟩
    -- The policy that is fetched is the one that lists the owner.
    obtain ⟨other, hother, hlists⟩ := h.listed
    rw [← hname, hfetched] at hother
    rwa [Option.some.inj hother]
  | store policy token => trivial

/-- A call that shelters the owner leaves the owner sheltered. -/
theorem Sheltered.answer {strict : Bool} (call : Call) (b : Backend)
    (h : Sheltered directory name owner b) (hcall : Sheltering name owner call) :
    Sheltered directory name owner (Backend.answerWith strict call b).2 := by
  have hserves := Backend.serves_answerWith strict
  have hdirectory := hserves.directory_eq call b
  -- Policies that stay need no more than the directory that stays.
  have hsame (hpolicies : (Backend.answerWith strict call b).2.store.policies = b.store.policies) :
      Sheltered directory name owner (Backend.answerWith strict call b).2 := by
    refine ⟨by rw [hdirectory, h.spaces], by rw [hdirectory, h.resources], ?_, ?_⟩
    · rw [hpolicies]
      exact h.names
    · rw [PolicyStore.get?, hpolicies]
      exact h.listed
  -- Nothing but a store that is answered well changes policies.
  cases call with
  | find lookup => exact hsame (hserves.policies_eq _ b rfl)
  | authorize caller x => exact hsame (hserves.policies_eq _ b rfl)
  | fetch fetched => exact hsame (hserves.policies_eq _ b rfl)
  | store policy token =>
    cases hanswer : (Backend.answerWith strict (.store policy token) b).1 with
    | error f => exact hsame (hserves.rejected policy token b f hanswer)
    | ok _ =>
      have hstored := hserves.stored policy token b hanswer
      refine ⟨by rw [hdirectory, h.spaces], by rw [hdirectory, h.resources], ?_, ?_⟩
      · rw [hstored]
        exact h.names.putIn policy
      · rw [PolicyStore.get?, hstored, PolicyStore.lookup_putIn]
        -- A policy put under another name leaves the one that lists the owner in sight.
        by_cases hname : name = PolicyStore.nameOf policy
        · rw [if_pos hname]
          exact ⟨policy, rfl, hcall hname.symm⟩
        · rw [if_neg hname]
          exact h.listed

theorem Sheltered.of_sameSpaces {b c : Backend} (h : Sheltered directory name owner b)
    (hsame : b.SameSpaces c) : Sheltered directory name owner c := by
  refine ⟨hsame.spaces.trans h.spaces, hsame.resources.trans h.resources, ?_, ?_⟩
  · rw [hsame.policies]
    exact h.names
  · rw [PolicyStore.get?, hsame.policies]
    exact h.listed

/-! ### The requests -/

/-- Whoever is not named by a text is not among the identities that the texts spell. -/
theorem notMem_of_namesOwner {found : Space} {texts : List String} {xs : List Uuid}
    (htexts : texts.map Uuid.parse? = xs.map some) (h : namesOwner found texts = false) :
    found.ownerId ∉ xs := by
  intro hmem
  -- An identity in the row is spelled by one of the texts, and that text would name the owner.
  have hspelled : some found.ownerId ∈ texts.map Uuid.parse? := by
    rw [htexts]
    exact List.mem_map_of_mem hmem
  obtain ⟨text, htext, hspells⟩ := List.mem_map.mp hspelled
  have hnamed : namesOwner found texts = true :=
    List.any_eq_true.mpr ⟨text, htext, decide_eq_true hspells⟩
  rw [h] at hnamed
  cases hnamed

/-- What a request stores lists the owner, as what it fetched does. -/
theorem Alteration.sheltering {change : Change} {place text : String} {caller : Option Caller}
    {texts : List String} {exchanges before after : List Exchanged} {result : Result Unit}
    {policy : Policy} {token : ProtectionToken} {answer : Result Unit} {found : Space}
    (hspace : directory.find? (.space space) = some found) (howner : found.ownerId = owner)
    (hdistinct : ∀ x resource, directory.find? (.resource x) = some resource →
      resource.policyId = name → x = space)
    (h : Alteration change place caller text texts exchanges result)
    (heq : exchanges = before ++ (⟨.store policy token, answer⟩ : Exchanged) :: after)
    (hvouched : ∀ e ∈ before, Vouched directory name owner e) :
    PolicyStore.nameOf policy = name → policy.Lists owner := by
  intro hname
  -- What is stored is what was fetched, changed by the identities that the texts spell.
  obtain ⟨-, x, opening, resource, fetched, lookups, xs, -, hopening, rfl, htexts, -, happlied⟩ :=
    h.store_eq heq
  have hresource : directory.find? (.resource x) = some resource :=
    hvouched ⟨.find (.resource x), .ok (some resource)⟩ (by simp [held]) resource rfl
  obtain ⟨hfetched, hlists⟩ : PolicyStore.nameOf fetched = resource.policyId ∧
      (resource.policyId = name → fetched.Lists owner) :=
    hvouched ⟨.fetch resource.policyId, .ok (fetched, token)⟩ (by simp [held]) fetched token rfl
  -- A change keeps the name, so the policy was fetched under the name that it is stored under.
  have hpolicy : resource.policyId = name := by
    obtain ⟨-, users, rfl⟩ := Change.applyEach_eq_ok happlied
    rw [← hfetched, ← hname]
    rfl
  refine Change.lists_of_applyEach happlied (hlists hpolicy) fun hremove => ?_
  -- The policy is that of the space, so the owner that the removal found is the owner.
  obtain rfl : x = space := hdistinct x resource hresource hpolicy
  subst hremove
  cases hopening with
  | remove other hothers =>
    -- Only a removal could take the owner out, and it has looked whether the owner is named.
    have hother : directory.find? (.space x) = some other :=
      hvouched ⟨.find (.space x), .ok (some other)⟩ (by simp) other rfl
    obtain rfl : found = other := Option.some.inj (hspace.symm.trans hother)
    rw [← howner]
    exact notMem_of_namesOwner htexts hothers

/-- A request makes only calls that shelter the owner. -/
theorem Request.careful {found : Space} (hspace : directory.find? (.space space) = some found)
    (howner : found.ownerId = owner)
    (hdistinct : ∀ x resource, directory.find? (.resource x) = some resource →
      resource.policyId = name → x = space) (r : Request) :
    r.perform.run.Careful (Vouched directory name owner) (Sheltering name owner) := by
  refine r.careful_of_stores (fun call hcall => ?_) fun _ _ halteration heq hvouched =>
    halteration.sheltering hspace howner hdistinct heq hvouched
  cases call with
  | store policy token => cases hcall
  | _ => trivial

/-- **The owner stays.** In a world in which policies are under their own names and spaces have
policies of their own, a policy that lists the owner of its space lists the owner after any turns of
any requests, whether the store is strict about tokens or not, and whatever becomes of identities,
faults, leave and tokens in between. -/
theorem owner_stays (strict : Bool) (b : Backend) (hnames : KeepsNames b.store.policies)
    (hdistinct : ∀ x y xresource yresource, b.directory.find? (.resource x) = some xresource →
      b.directory.find? (.resource y) = some yresource →
      xresource.policyId = yresource.policyId → x = y)
    (space owner : Uuid) (howner : b.ListsOwner space owner) (requests : List Request)
    (turns : List (Turn Backend))
    (hturns : ∀ change, .surroundings change ∈ turns → ∀ c : Backend, c.SameSpaces (change c)) :
    Backend.ListsOwner
      ((Pool.mk b (requests.map (·.perform.run))).run (Backend.answerWith strict) turns).state
      space owner := by
  obtain ⟨found, resource, policy, hfound, hfoundOwner, hresource, hpolicy, hlists⟩ := howner
  -- The invariant of the run names the one policy that the resource of the space points to.
  have hsheltered : Sheltered b.directory resource.policyId owner b :=
    ⟨rfl, rfl, hnames, policy, hpolicy, hlists⟩
  have hlast : Sheltered b.directory resource.policyId owner
      ((Pool.mk b (requests.map (·.perform.run))).run (Backend.answerWith strict) turns).state := by
    refine Pool.run_invariant (fun call c hc => hc.vouched call c)
      (fun call c hc hcall => hc.answer call c hcall)
      (fun change hchange c hc => hc.of_sameSpaces (hturns change hchange c)) ?_ hsheltered
    -- The programs of the pool are those of the requests, and each of them is careful.
    intro program hprogram
    obtain ⟨r, -, rfl⟩ := List.mem_map.mp hprogram
    exact r.careful hfound hfoundOwner fun x other hother hname =>
      hdistinct x space other resource hother hresource hname
  -- What the invariant keeps is what the space needs in order to list its owner again.
  obtain ⟨hspaces, hresources, -, after, hafter, hafterLists⟩ := hlast
  refine ⟨found, resource, after, ?_, hfoundOwner, ?_, hafter, hafterLists⟩
  · rw [Directory.find?, hspaces]
    exact hfound
  · rw [Directory.find?, hresources]
    exact hresource

/-- The owner stays where somebody removes the owner while a guest is added and the store breaks
down. -/
theorem owner_stays_in_sample :
    let requests : List Request :=
      [.change none (.add (Uuid.uniform 0).text (Uuid.uniform 2).text),
        .change none (.remove (Uuid.uniform 0).text (Uuid.uniform 1).text)]
    let turns : List (Turn Backend) :=
      [.program 0, .program 1, .program 0, .program 0, .program 0,
        .surroundings fun b => { b with faults := { store := some PolicyStore.outdatedToken } },
        .program 0]
    Backend.ListsOwner
      ((Pool.mk Backend.sample (requests.map (·.perform.run))).run (Backend.answerWith false)
        turns).state (.uniform 0) (.uniform 1) := by
  intro requests turns
  -- There is one resource, so it is the resource of that space.
  have hspace {x : Uuid} {resource : SpaceResource}
      (hx : Backend.sample.directory.find? (.resource x) = some resource) : x = .uniform 0 := by
    rw [Directory.find?] at hx
    have hfound := List.find?_some hx
    have hmem := List.mem_singleton.mp (List.mem_of_find?_eq_some hx)
    rw [hmem] at hfound
    exact (of_decide_eq_true hfound).symm
  have howner : Backend.sample.ListsOwner (.uniform 0) (.uniform 1) :=
    ⟨⟨.uniform 0, .uniform 1⟩, ⟨.uniform 0, "policy"⟩, .listing "policy" [.uniform 1], rfl, rfl,
      rfl, rfl, [.uniform 1], rfl, List.mem_singleton_self _⟩
  refine owner_stays false .sample Backend.keepsNames_sample
    (fun x y _ _ hx hy _ => (hspace hx).trans (hspace hy).symm) _ _ howner requests turns
    fun change hchange c => ?_
  simp only [turns, List.mem_cons, List.not_mem_nil, or_false, false_or, reduceCtorEq,
    Turn.surroundings.injEq] at hchange
  subst hchange
  exact ⟨rfl, rfl, rfl⟩

end Service

end Roster
