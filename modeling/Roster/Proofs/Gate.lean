import Roster.Proofs.Backend
import Roster.Proofs.Transcript

/-!
# The gate in front of a space

What a request may ask of its surroundings, in which order and how often (`Gated`). Leave is asked
for once; everything about the space apart from its owner is read only with leave; the policy is
fetched once and stored at most once, as the last thing, with the token that came with it and with
nothing but its member list changed. A removal that would take the owner away, or that is about a
space that is not there, ends with its first lookup, and a listing asks for no leave and stores
nothing (`authorization_gate`).

This holds for any handler whatever, so for all worlds, all faults and all that other requests do in
between. The argument reads the rows of `Alteration` from the left: the first exchange of an update
asks for leave and any other one takes leave to be given (`Update.leave`), and a policy is stored in
the last exchange of one of the rows only (`Alteration.store_eq`).
-/

namespace Roster.Service

open Attempt

/-- The kinds of calls that a request makes once. -/
def onceKinds : List (Call → Bool) :=
  [Call.isAuthorize, Call.isFetch, Call.isStore]

/-- The rules for the exchanges of a request to change the members of a space. -/
structure Gated (caller : Option Caller) (text : String) (exchanges : List Exchanged) : Prop where
  /-- Leave is asked for, a policy is fetched and a policy is stored at most once each. -/
  once : ∀ kind ∈ onceKinds, exchanges.countP (kind ·.call) ≤ 1
  /-- Calls that name a space name the one of the request. -/
  same_space : ∀ e ∈ exchanges, ∀ space, e.call.space? = some space → Uuid.parse? text = some space
  /-- What needs leave comes after leave was given to the caller for the space of the request. -/
  guarded : ∀ before e after, exchanges = before ++ e :: after → e.call.isGuarded = true →
    ∃ space, Uuid.parse? text = some space ∧
      (⟨.authorize caller space, .ok true⟩ : Exchanged) ∈ before
  /-- To store a policy is the last thing. It is stored with the token that it was fetched with, and
  as it was fetched apart from its member list. -/
  store_last : ∀ before policy token answer after,
    exchanges = before ++ (⟨.store policy token, answer⟩ : Exchanged) :: after →
      after = [] ∧ ∃ name fetched,
        (⟨.fetch name, .ok (fetched, token)⟩ : Exchanged) ∈ before ∧
          ∃ users, policy = fetched.withUsers users

/-! ### The rows of an update -/

variable {change : Change} {caller : Option Caller} {space : Uuid} {texts : List String}
  {exchanges opening : List Exchanged} {result : Result Unit}

theorem kind_find {kind : Call → Bool} (hkind : kind ∈ onceKinds) (lookup : Lookup) :
    kind (.find lookup) = false := by
  simp only [onceKinds, List.mem_cons, List.not_mem_nil, or_false] at hkind
  rcases hkind with rfl | rfl | rfl <;> rfl

namespace Update

/-- An update begins by asking for leave, and goes on only with leave. -/
theorem leave (h : Update change caller space texts exchanges result) :
    ∃ answer rest, exchanges = ⟨.authorize caller space, answer⟩ :: rest ∧
      (rest ≠ [] → answer = .ok true) := by
  cases h with
  | refused answer => exact ⟨answer, [], rfl, fun hne => absurd rfl hne⟩
  | unlocated => exact ⟨_, _, rfl, fun _ => rfl⟩
  | unfetched => exact ⟨_, _, rfl, fun _ => rfl⟩
  | spoilt => exact ⟨_, _, rfl, fun _ => rfl⟩
  | unchanged => exact ⟨_, _, rfl, fun _ => rfl⟩
  | stored => exact ⟨_, _, rfl, fun _ => rfl⟩

/-- However far an update gets, its calls are the first ones of a fixed row: asking for leave,
looking up the resource, fetching, looking up identities, storing. -/
theorem calls_prefix (h : Update change caller space texts exchanges result) :
    ∃ name lookups policy token, (∀ c ∈ lookups, Call.IsIdentityLookup c) ∧
      exchanges.map (·.call) <+: [.authorize caller space, .find (.resource space), .fetch name] ++
        (lookups ++ [.store policy token]) := by
  -- The lookups of the changes are those of identities.
  have hlookups {state : Policy × Bool} {lookups : List Exchanged} {r : Result (Policy × Bool)}
      (hshows : Attempt.Shows (changeEach change texts state) lookups r) :
      ∀ c ∈ lookups.map (·.call), Call.IsIdentityLookup c := by
    simpa using changeEach_only state lookups r hshows
  -- A row that breaks off early is continued by any policy and any token.
  let policy : Policy := ⟨none, "", "", "", "", ⟨"", []⟩, []⟩
  let token : ProtectionToken := ⟨""⟩
  cases h with
  | refused => exact ⟨"", [], policy, token, by simp, by simp⟩
  | unlocated => exact ⟨"", [], policy, token, by simp, by simp⟩
  | unfetched resource => exact ⟨resource.policyId, [], policy, token, by simp, by simp⟩
  | spoilt resource _ token lookups _ hspoilt =>
    exact ⟨resource.policyId, _, policy, token, hlookups hspoilt, by simp [held]⟩
  | unchanged resource _ _ token lookups hok =>
    exact ⟨resource.policyId, _, policy, token, hlookups hok, by simp [held]⟩
  | stored resource _ after token lookups _ hok =>
    exact ⟨resource.policyId, _, after, token, hlookups hok, by simp [held]⟩

/-- An update asks for leave, fetches and stores at most once each. -/
theorem countP_le_one (h : Update change caller space texts exchanges result) {kind : Call → Bool}
    (hkind : kind ∈ onceKinds) : exchanges.countP (kind ·.call) ≤ 1 := by
  obtain ⟨name, lookups, policy, token, hlookups, hprefix⟩ := h.calls_prefix
  -- A kind counts no more often in the first calls of the row than in all of it.
  have hle := hprefix.sublist.countP_le (p := kind)
  -- The lookups of identities do not count, and the rest of the row is known.
  have hnone : ∀ c ∈ lookups, ¬kind c = true := by
    intro c hc
    obtain ⟨x, rfl⟩ := hlookups c hc
    rw [kind_find hkind]
    exact Bool.false_ne_true
  rw [List.countP_map, List.countP_append, List.countP_append, List.countP_eq_zero.mpr hnone] at hle
  refine hle.trans ?_
  simp only [onceKinds, List.mem_cons, List.not_mem_nil, or_false] at hkind
  rcases hkind with rfl | rfl | rfl <;> exact Nat.le_refl 1

theorem space_eq (h : Update change caller space texts exchanges result) {e : Exchanged}
    (he : e ∈ exchanges) {other : Uuid} (hother : e.call.space? = some other) : other = space := by
  obtain ⟨name, lookups, policy, token, hlookups, hprefix⟩ := h.calls_prefix
  -- Each call is one of the row, and those that name a space name that of the update.
  have hmem : e.call ∈ _ := hprefix.subset (List.mem_map_of_mem he)
  simp only [List.mem_append, List.mem_cons, List.not_mem_nil, or_false] at hmem
  rcases hmem with (hcall | hcall | hcall) | hlookup | hcall
  · exact (Option.some.inj (by simpa [hcall, Call.space?] using hother)).symm
  · exact (Option.some.inj (by simpa [hcall, Call.space?] using hother)).symm
  · simp [hcall, Call.space?] at hother
  · obtain ⟨x, hx⟩ := hlookups _ hlookup
    simp [hx, Call.space?] at hother
  · simp [hcall, Call.space?] at hother

/-- What an update does with leave comes after the leave. -/
theorem guarded (h : Update change caller space texts exchanges result)
    {before after : List Exchanged} {e : Exchanged} (heq : exchanges = before ++ e :: after)
    (he : e.call.isGuarded = true) :
    (⟨.authorize caller space, .ok true⟩ : Exchanged) ∈ before := by
  obtain ⟨answer, rest, rfl, hallowed⟩ := h.leave
  -- The first call asks for leave, and is not guarded itself.
  cases before with
  | nil =>
    obtain rfl := (List.cons.inj heq).1
    cases he
  | cons first before =>
    obtain ⟨rfl, rfl⟩ := List.cons.inj heq
    -- Something comes behind it, so leave was given.
    rw [hallowed (by simp)]
    exact List.mem_cons_self

end Update

/-! ### Whole requests -/

namespace Alteration

variable {place text : String}

theorem countP_le_one (h : Alteration change place caller text texts exchanges result)
    {kind : Call → Bool} (hkind : kind ∈ onceKinds) : exchanges.countP (kind ·.call) ≤ 1 := by
  cases h with
  | malformed => simp
  | kept space answer => simp [kind_find hkind]
  | updated space opening rest _ _ hopening hupdate =>
    -- The opening looks the space up, and that is none of the three kinds.
    have hnone : opening.countP (kind ·.call) = 0 := by
      refine List.countP_eq_zero.mpr fun e he => ?_
      rw [hopening.calls e he, kind_find hkind]
      exact Bool.false_ne_true
    rw [List.countP_append, hnone, Nat.zero_add]
    exact hupdate.countP_le_one hkind

theorem same_space (h : Alteration change place caller text texts exchanges result) {e : Exchanged}
    (he : e ∈ exchanges) {other : Uuid} (hother : e.call.space? = some other) :
    Uuid.parse? text = some other := by
  cases h with
  | malformed => simp at he
  | kept space answer _ hspace =>
    -- A request that is kept from going on has looked up the space that its text names.
    obtain rfl := List.mem_singleton.mp he
    rw [hspace, ← hother]
    rfl
  | updated space opening rest _ hspace hopening hupdate =>
    rcases List.mem_append.mp he with hfront | hrest
    · rw [hspace, ← hother, hopening.calls e hfront]
      rfl
    · rw [hspace, hupdate.space_eq hrest hother]

/-- What a request does with leave comes after the leave. -/
theorem guarded (h : Alteration change place caller text texts exchanges result)
    {before after : List Exchanged} {e : Exchanged} (heq : exchanges = before ++ e :: after)
    (he : e.call.isGuarded = true) :
    ∃ space, Uuid.parse? text = some space ∧
      (⟨.authorize caller space, .ok true⟩ : Exchanged) ∈ before := by
  cases h with
  | malformed => simp at heq
  | kept space answer =>
    have hmem : e ∈ [(⟨.find (.space space), answer⟩ : Exchanged)] := by simp [heq]
    obtain rfl := List.mem_singleton.mp hmem
    cases he
  | updated space opening rest _ hspace hopening hupdate =>
    -- The lookup of the space needs no leave, so the exchange belongs to the update.
    obtain ⟨between, rfl, hrest⟩ := exists_eq_append_of_notMem heq fun hmem => by
      simp [hopening.calls e hmem, Call.isGuarded] at he
    exact ⟨space, hspace, List.mem_append_right _ (hupdate.guarded hrest he)⟩

/-- A request stores a policy in its last exchange only: the policy that it fetched, changed. -/
theorem store_last (h : Alteration change place caller text texts exchanges result)
    {before after : List Exchanged} {policy : Policy} {token : ProtectionToken}
    {answer : Result Unit}
    (heq : exchanges = before ++ (⟨.store policy token, answer⟩ : Exchanged) :: after) :
    after = [] ∧ ∃ name fetched, (⟨.fetch name, .ok (fetched, token)⟩ : Exchanged) ∈ before ∧
      ∃ users, policy = fetched.withUsers users := by
  -- Where it stores, the row in front has the fetch with the same token.
  obtain ⟨hafter, space, opening, resource, fetched, lookups, xs, -, -, rfl, -, -, happlied⟩ :=
    h.store_eq heq
  obtain ⟨-, husers⟩ := Change.applyEach_eq_ok happlied
  exact ⟨hafter, resource.policyId, fetched, by simp [held], husers⟩

theorem gated (h : Alteration change place caller text texts exchanges result) :
    Gated caller text exchanges where
  once _ hkind := h.countP_le_one hkind
  same_space _ he _ hother := h.same_space he hother
  guarded _ _ _ heq he := h.guarded heq he
  store_last _ _ _ _ _ heq := h.store_last heq

end Alteration

/-- What keeps a removal from being made: the space is not there, or its owner is named. -/
def Blocked (entries : List (Option String)) : Result (Option Space) → Prop
  | .ok (some found) => ∃ text, some text ∈ entries ∧ Uuid.parse? text = some found.ownerId
  | .ok none => True
  | .error _ => False

/-- A removal that is blocked ends with the lookup of the space. -/
theorem Alteration.eq_of_blocked {place text : String} {entries : List (Option String)}
    {answer : Result (Option Space)}
    (h : Alteration .remove place caller text (entries.filterMap id) exchanges result)
    (hspace : Uuid.parse? text = some space)
    (hanswer : ∀ given rest, exchanges = (⟨.find (.space space), given⟩ : Exchanged) :: rest →
      given = answer)
    (hblocked : Blocked entries answer) : exchanges = [⟨.find (.space space), answer⟩] := by
  cases h with
  | malformed f h => simp [hspace] at h
  | kept other given f hother =>
    -- The text names one space only, so it is the one of the row.
    obtain rfl : space = other := Option.some.inj (hspace.symm.trans hother)
    rw [hanswer given [] rfl]
  | updated other opening rest result hother hopening h =>
    obtain rfl : space = other := Option.some.inj (hspace.symm.trans hother)
    cases hopening with
    | remove found hothers =>
      -- The lookup was answered with a space whose owner is not named, so nothing blocks.
      rw [← hanswer _ rest rfl] at hblocked
      obtain ⟨named, hmem, hnamed⟩ := hblocked
      have hany : namesOwner found (entries.filterMap id) = true :=
        List.any_eq_true.mpr ⟨named, by simpa using hmem, by simpa using hnamed⟩
      rw [hothers] at hany
      cases hany

/-- **The gate.** Whatever answers the calls, a request to change the members of a space keeps to
the rules; a removal that is blocked looks up the space and does nothing else; and a listing looks
up entries and fetches and does nothing else. -/
theorem authorization_gate {σ : Type} (handler : Handler interface σ) (s : σ)
    (caller : Option Caller) :
    (∀ m : Mutation, Gated caller m.space ((m.perform caller).run.run handler s).exchanges) ∧
      (∀ (m : Mutation) (entries : List (Option String)) (space : Uuid),
        m.change = .remove → m.batch.data = some entries → Uuid.parse? m.space = some space →
        Blocked entries (handler (.find (.space space)) s).1 →
        ((m.perform caller).run.run handler s).exchanges =
          [⟨.find (.space space), (handler (.find (.space space)) s).1⟩]) ∧
      ∀ (space : String) (page : PageRequest) (path : String),
        ∀ e ∈ ((list space page path).run.run handler s).exchanges, e.call.Reads := by
  refine ⟨fun m => ?_, fun m entries space hchange hdata hspace hblocked => ?_,
    fun space page path => list_only space page path _ _ (Program.shows_run handler _ s)⟩
  · rcases mutation_of_shows (Program.shows_run handler (m.perform caller).run s) with
      ⟨-, hnone, -⟩ | ⟨entries, -, halteration⟩
    · -- A request without identities has no calls, so there is nothing to break a rule.
      rw [hnone]
      exact ⟨by simp, by simp, by simp, by simp⟩
    · exact halteration.gated
  · rcases mutation_of_shows (Program.shows_run handler (m.perform caller).run s) with
      ⟨hnone, -⟩ | ⟨others, hothers, halteration⟩
    · simp [hdata] at hnone
    obtain rfl : entries = others := Option.some.inj (hdata.symm.trans hothers)
    rw [hchange] at halteration
    refine halteration.eq_of_blocked hspace (fun given rest heq => ?_) hblocked
    -- The lookup of the space is the first call, and the handler answers it in the state at the
    -- start.
    have hanswers := answers_run handler (m.perform caller).run s
    rw [heq] at hanswers
    exact hanswers.1

/-- The owner of a space cannot be removed from it, in whatever place of a batch. -/
theorem owner_removal_blocked :
    (((Mutation.removeAll (Uuid.uniform 0).text
        ⟨some [some (Uuid.uniform 2).text, none, some (Uuid.uniform 1).text]⟩).perform none).run.run
      Backend.answer .sample).exchanges =
        [⟨.find (.space (.uniform 0)), (Backend.answer (.find (.space (.uniform 0))) .sample).1⟩] :=
  (authorization_gate Backend.answer .sample none).2.1 _ _ _ rfl rfl rfl
    ⟨(Uuid.uniform 1).text, by simp, rfl⟩

end Roster.Service
