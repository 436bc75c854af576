import Roster.Proofs.Client
import Roster.Proofs.NetChange
import Roster.Proofs.Transcript

/-!
# What changing members sends

A request to change members that is served by way of the policy server sends at most four requests,
always the same ones in the same order: it asks for an entitlement, for a token, for the policy, and
to store the policy. Each of them is sent only if the response to the one before could be used, and
the last one only if the member list is another one (`Dialogue`). That holds whatever the server
answers, and whatever is found in the directory (`dialogue_of_mutation`).

A client is a program in which every call of the service is replaced by a program. What it shows are
the rows that the replaced calls show, one after another (`Program.shows_interpret`), so what is sent
is read off the rows of exchanges that the service may show.
-/

namespace Roster

/-! ### Programs whose calls are replaced -/

section

variable {I J : Interface} {α : Type} {answer : (call : I.Call) → Program J (I.Answer call)}

/-- The exchanges are those of the programs that find the answers to the calls of a row, one after
another. -/
def Refines (answer : (call : I.Call) → Program J (I.Answer call)) :
    List (Exchange I) → List (Exchange J) → Prop
  | [], exchanges => exchanges = []
  | e :: row, exchanges =>
    ∃ front behind, exchanges = front ++ behind ∧ (answer e.call).Shows front e.answer ∧
      Refines answer row behind

theorem refines_append {row rest : List (Exchange I)} {exchanges : List (Exchange J)} :
    Refines answer (row ++ rest) exchanges ↔
      ∃ before behind, exchanges = before ++ behind ∧ Refines answer row before ∧
        Refines answer rest behind := by
  induction row generalizing exchanges with
  | nil => simp [Refines]
  | cons e row ih =>
    simp only [List.cons_append, Refines, ih]
    constructor
    · rintro ⟨front, _, rfl, hfront, before, behind, rfl, hbefore, hbehind⟩
      exact ⟨front ++ before, behind, (List.append_assoc ..).symm, ⟨front, before, rfl, hfront,
        hbefore⟩, hbehind⟩
    · rintro ⟨_, behind, rfl, ⟨front, before, rfl, hfront, hbefore⟩, hbehind⟩
      exact ⟨front, before ++ behind, List.append_assoc .., hfront, before, behind, rfl, hbefore,
        hbehind⟩

end

namespace PolicyServer

open Service Attempt

variable {s : RealmSettings} {caller : Option Caller} {space : Uuid} {texts : List String}
  {change : Change} {row : List Exchanged} {exchanges : List (Exchange wire)} {result : Result Unit}

/-! ### Calls that send nothing -/

/-- Looking something up is an exchange of the client as well, and sends nothing. -/
theorem exchanges_of_find {lookup : Lookup} {answer : Result (Option lookup.Entry)}
    (h : (PolicyServer.answer s (.find lookup)).Shows exchanges answer) :
    exchanges = [⟨.find lookup, answer⟩] := by
  obtain ⟨found, behind, rfl, rfl, hfound⟩ := h
  rw [hfound]

theorem sent_of_lookups (hrow : ∀ e ∈ row, e.call.IsLookup)
    (h : Refines (answer s) row exchanges) : sent exchanges = [] := by
  induction row generalizing exchanges with
  -- An empty row is refined by no exchanges at all.
  | nil =>
    rw [show exchanges = [] from h]
    rfl
  | cons e row ih =>
    obtain ⟨call, given⟩ := e
    obtain ⟨⟨lookup, hcall⟩, hrest⟩ := List.forall_mem_cons.mp hrow
    change call = .find lookup at hcall
    subst hcall
    -- The lookup is one exchange of the client, which sends nothing; behind it are the other
    -- lookups.
    obtain ⟨front, behind, rfl, hfront, hbehind⟩ := h
    rw [exchanges_of_find hfront, sent_append, ih hrest hbehind]
    rfl

/-! ### The dialogue -/

/-- Changing a policy by the identities that texts name makes a difference to its member list, and
this is the text of the other list. -/
def Changes (change : Change) (texts : List String) (policy : Policy) (users : String) : Prop :=
  ∃ xs ids, texts.map Uuid.parse? = xs.map some ∧ policy.members = .ok ids ∧
    change.netMembers xs ids ≠ ids ∧ users = MemberList.encode (change.netMembers xs ids)

/-- Changing a policy by the identities that texts name makes no difference to its member list. -/
def Keeps (change : Change) (texts : List String) (policy : Policy) : Prop :=
  ∃ xs, texts.map Uuid.parse? = xs.map some ∧
    ∀ ids, policy.members = .ok ids → change.netMembers xs ids = ids

/-- The requests that are sent to change the members of a space, each with its response, and what
comes of it, by which of them is the last one. The row is what else was looked up meanwhile. -/
inductive Dialogue (s : RealmSettings) (caller : Option Caller) (text : String) (change : Change)
    (texts : List String) (exchanges : List (Exchange wire)) : List Sent → Result Unit → Prop where
  /-- Nothing is sent. -/
  | silent (f : Failure) : Dialogue s caller text change texts exchanges [] (.error f)
  /-- The last request is the one for an entitlement of the caller to the space. -/
  | entitlement (c : Caller) (space : Uuid) (first : Option Response) (f : Failure)
      (hcaller : caller = some c) (hspace : Uuid.parse? text = some space) :
      Dialogue s caller text change texts exchanges
        [(entitlementRequest s c space, first)] (.error f)
  /-- The last request is the one for a token, sent with an entitlement. -/
  | token (c : Caller) (space : Uuid) (first second : Option Response) (f : Failure)
      (hcaller : caller = some c) (hspace : Uuid.parse? text = some space)
      (hentitled : entitles space first = true) :
      Dialogue s caller text change texts exchanges
        [(entitlementRequest s c space, first), (tokenRequest s, second)] (.error f)
  /-- The last request is the one for the policy of the space, sent with a token. It is the last one
  of a successful request only if there is nothing to change. -/
  | fetch (c : Caller) (space : Uuid) (resource : SpaceResource) (token : String)
      (first second third : Option Response) (result : Result Unit)
      (hcaller : caller = some c) (hspace : Uuid.parse? text = some space)
      (hentitled : entitles space first = true)
      (hresource : ⟨.find (.resource space), .ok (some resource)⟩ ∈ exchanges)
      (htoken : tokenIn? second = some token)
      (hresult : result = .ok () →
        ∃ policy, policyIn? third = some policy ∧ Keeps change texts policy) :
      Dialogue s caller text change texts exchanges
        [(entitlementRequest s c space, first), (tokenRequest s, second),
          (fetchRequest s resource.policyId token, third)] result
  /-- The last request is the one to store the policy, sent with the policy and the token that it
  came with, and only if there is something to change. What it carries is read as the policy
  received, with the other member list. Its response decides. -/
  | store (c : Caller) (space : Uuid) (resource : SpaceResource) (token : String) (policy : Policy)
      (policyId users : String) (first second third fourth : Option Response) (result : Result Unit)
      (hcaller : caller = some c) (hspace : Uuid.parse? text = some space)
      (hentitled : entitles space first = true)
      (hresource : ⟨.find (.resource space), .ok (some resource)⟩ ∈ exchanges)
      (htoken : tokenIn? second = some token) (hpolicy : policyIn? third = some policy)
      (hid : policy.id = some policyId) (hchanges : Changes change texts policy users)
      (hcarried : (storeRequest s policyId token (policy.withUsers users)).policy? =
        some (policy.withUsers users))
      (hresult : result = .ok () ↔ isStored fourth = true) :
      Dialogue s caller text change texts exchanges
        [(entitlementRequest s c space, first), (tokenRequest s, second),
          (fetchRequest s resource.policyId token, third),
          (storeRequest s policyId token (policy.withUsers users), fourth)] result

/-- Where a failure passed through does not matter. -/
theorem Dialogue.through {text : String} {requests : List Sent}
    (h : Dialogue s caller text change texts exchanges requests result) (place : String) :
    Dialogue s caller text change texts exchanges requests (result.through place) := by
  -- A place is added to failures only, so whether the request succeeded is not changed by it.
  have hok : result.through place = .ok () ↔ result = .ok () := mapError_eq_ok
  cases h with
  | silent f => exact .silent _
  | entitlement c space first f hcaller hspace => exact .entitlement c space first _ hcaller hspace
  | token c space first second f hcaller hspace hentitled =>
    exact .token c space first second _ hcaller hspace hentitled
  | fetch c space resource token first second third _ hcaller hspace hentitled hresource htoken
      hresult =>
    exact .fetch c space resource token first second third _ hcaller hspace hentitled hresource
      htoken fun h => hresult (hok.mp h)
  | store c space resource token policy policyId users first second third fourth _ hcaller hspace
      hentitled hresource htoken hpolicy hid hchanges hcarried hresult =>
    exact .store c space resource token policy policyId users first second third fourth _ hcaller
      hspace hentitled hresource htoken hpolicy hid hchanges hcarried (hok.trans hresult)

/-! ### From rows to dialogues -/

/-- What a successful row of changes makes of a policy. -/
theorem changes_of_applyEach {xs : List Uuid} {policy after : Policy} {differs : Bool}
    (htexts : texts.map Uuid.parse? = xs.map some)
    (happlied : change.applyEach xs (policy, false) = .ok (after, differs)) :
    if differs then ∃ users, after = policy.withUsers users ∧ Changes change texts policy users
    else Keeps change texts policy := by
  by_cases hne : xs = []
  · -- Nothing is changed by no identities, whatever the member list is.
    subst hne
    cases happlied
    exact ⟨[], htexts, fun ids _ => change.netMembers_nil ids⟩
  -- Otherwise the list could be read, and the flag says whether the net list is another one.
  obtain ⟨ids, hids, hafter, hdiffers⟩ := (Change.applyEach_eq_ok_iff hne).mp happlied
  cases differs with
  | true =>
    have hother : change.netMembers xs ids ≠ ids := of_decide_eq_true hdiffers.symm
    rw [if_neg hother] at hafter
    exact ⟨_, hafter, xs, ids, htexts, hids, hother, rfl⟩
  | false =>
    refine ⟨xs, htexts, fun others hothers => ?_⟩
    -- A list that the policy has is the one that was read.
    obtain rfl : ids = others := Except.ok.inj (hids.symm.trans hothers)
    exact not_not.mp (of_decide_eq_false hdiffers.symm)

/-- By the exchanges with which a caller comes to hold a policy, an entitlement, a token and the
policy have been asked for. -/
theorem sent_of_held {resource : SpaceResource} {policy : Policy} {token : ProtectionToken}
    (h : Refines (answer s) (held caller space resource policy token) exchanges) :
    ∃ c first second third, caller = some c ∧ entitles space first = true ∧
      ⟨.find (.resource space), .ok (some resource)⟩ ∈ exchanges ∧
      tokenIn? second = some token.text ∧ policyIn? third = some policy ∧
      sent exchanges = [(entitlementRequest s c space, first), (tokenRequest s, second),
        (fetchRequest s resource.policyId token.text, third)] := by
  -- The row held is leave, location and policy, each refined by exchanges of its own.
  obtain ⟨asked, _, rfl, hasked, located, _, rfl, hlocated, fetched, _, rfl, hfetched, rfl⟩ := h
  obtain ⟨c, first, hcaller, hentitled, hfirst⟩ := (asking_of_shows hasked).of_ok_true
  obtain ⟨second, third, htoken, hpolicy, hrest⟩ := (fetching_of_shows hfetched).of_ok
  obtain rfl := exchanges_of_find hlocated
  refine ⟨c, first, second, third, hcaller, hentitled, ?_, htoken, hpolicy, ?_⟩
  · simp
  · rw [sent_append, sent_append, sent_append, hfirst, hrest]
    rfl

/-- Changing a policy by each identity sends nothing. -/
theorem sent_of_changeEach {state : Policy × Bool} {last : Result (Policy × Bool)}
    {lookups : List Exchanged} (h : Attempt.Shows (changeEach change texts state) lookups last)
    (hrow : Refines (answer s) lookups exchanges) : sent exchanges = [] := by
  refine sent_of_lookups (fun e he => ?_) hrow
  obtain ⟨id, hid⟩ := changeEach_only state lookups last h e he
  exact ⟨_, hid⟩

/-- What an update sends. The lookups are said to be among the exchanges of the whole request. -/
theorem dialogue_of_update {text : String} {behind : List (Exchange wire)}
    (hspace : Uuid.parse? text = some space) (h : Update change caller space texts row result)
    (hrow : Refines (answer s) row behind) (hmem : ∀ e ∈ behind, e ∈ exchanges) :
    Dialogue s caller text change texts exchanges (sent behind) result := by
  -- One case for each place where an update can end. The requests sent are those of the calls so far.
  cases h with
  | refused given f hf =>
    -- The only call was for leave, which sends nothing without a caller.
    obtain ⟨asked, _, rfl, hasked, rfl⟩ := hrow
    have hasking := asking_of_shows hasked
    rw [List.append_nil]
    generalize sent asked = requests at hasking ⊢
    cases hasking with
    | silent => exact .silent f
    | asked c first _ hcaller _ => exact .entitlement c space first f hcaller hspace
  | unlocated given f hf =>
    -- Leave was given, so the entitlement request was sent and its response was of use.
    obtain ⟨asked, _, rfl, hasked, located, _, rfl, hlocated, rfl⟩ := hrow
    obtain ⟨c, first, hcaller, -, hfirst⟩ := (asking_of_shows hasked).of_ok_true
    obtain rfl := exchanges_of_find hlocated
    rw [sent_append, hfirst]
    exact .entitlement c space first f hcaller hspace
  | unfetched resource f =>
    -- A fetch that fails may have sent nothing, a token request, or the fetch request as well.
    obtain ⟨asked, _, rfl, hasked, located, _, rfl, hlocated, fetched, _, rfl, hfetched, rfl⟩ := hrow
    obtain ⟨c, first, hcaller, hentitled, hfirst⟩ := (asking_of_shows hasked).of_ok_true
    obtain rfl := exchanges_of_find hlocated
    have hresource : ⟨.find (.resource space), .ok (some resource)⟩ ∈ exchanges :=
      hmem _ (by simp)
    have hsent : sent (asked ++ ([⟨.find (.resource space), .ok (some resource)⟩] ++
        (fetched ++ []))) = (entitlementRequest s c space, first) :: sent fetched := by
      rw [sent_append, sent_append, hfirst, List.append_nil]
      rfl
    have hfetching := fetching_of_shows hfetched
    rw [hsent]
    generalize sent fetched = requests at hfetching ⊢
    cases hfetching with
    | silent => exact .entitlement c space first _ hcaller hspace
    | refused second => exact .token c space first second _ hcaller hspace hentitled
    | asked second third token _ htoken _ =>
      exact .fetch c space resource token first second third _ hcaller hspace hentitled hresource
        htoken nofun
  | spoilt resource policy token lookups f hspoilt =>
    -- The changes send nothing, so the fetch request is the last one, and the request has failed.
    obtain ⟨front, rest, rfl, hheld, hlookups⟩ := refines_append.mp hrow
    obtain ⟨c, first, second, third, hcaller, hentitled, hresource, htoken, -, hsent⟩ :=
      sent_of_held hheld
    rw [sent_append, hsent, sent_of_changeEach hspoilt hlookups]
    exact .fetch c space resource token.text first second third _ hcaller hspace hentitled
      (hmem _ (List.mem_append_left _ hresource)) htoken nofun
  | unchanged resource policy after token lookups hok =>
    -- As before, but the request succeeds, and the list is left as it is.
    obtain ⟨front, rest, rfl, hheld, hlookups⟩ := refines_append.mp hrow
    obtain ⟨c, first, second, third, hcaller, hentitled, hresource, htoken, hpolicy, hsent⟩ :=
      sent_of_held hheld
    obtain ⟨xs, htexts, -, happlied⟩ := changeEach_eq_ok hok
    rw [sent_append, hsent, sent_of_changeEach hok hlookups]
    exact .fetch c space resource token.text first second third _ hcaller hspace hentitled
      (hmem _ (List.mem_append_left _ hresource)) htoken
      fun _ => ⟨policy, hpolicy, changes_of_applyEach htexts happlied⟩
  | stored resource policy after token lookups given hok =>
    -- Cut the row at the store: in front of it the policy was fetched and changed.
    obtain ⟨_, storing, rfl, hreading, hstoring⟩ := refines_append.mp hrow
    obtain ⟨front, rest, rfl, hheld, hlookups⟩ := refines_append.mp hreading
    obtain ⟨c, first, second, third, hcaller, hentitled, hresource, htoken, hpolicy, hsent⟩ :=
      sent_of_held hheld
    obtain ⟨xs, htexts, -, happlied⟩ := changeEach_eq_ok hok
    obtain ⟨users, rfl, hchanges⟩ := changes_of_applyEach htexts happlied
    obtain ⟨stored, _, rfl, hstored, rfl⟩ := hstoring
    -- The lookup of the resource is an exchange of the whole request too.
    have hlocated := hmem _ (List.mem_append_left _ (List.mem_append_left _ hresource))
    have hstoring := storing_of_shows hstored
    rw [sent_append, sent_append, hsent, sent_of_changeEach hok hlookups, List.append_nil,
      List.append_nil]
    generalize sent stored = requests at hstoring ⊢
    cases hstoring with
    | silent f =>
      -- A policy without an id is not sent, so the fetch request was the last one.
      exact .fetch c space resource token.text first second third _ hcaller hspace hentitled
        hlocated htoken nofun
    | asked policyId fourth _ hid hanswer =>
      -- The store was sent. What it carries reads back as the policy received with the new list.
      refine .store c space resource token.text policy policyId users first second third fourth _
        hcaller hspace hentitled hlocated htoken hpolicy hid hchanges
        (policy?_storeRequest s policyId token.text hpolicy users) ?_
      rw [Result.as_eq_ok]
      exact hanswer

/-- What a request to change the members of a space sends. -/
theorem dialogue_of_alteration {place text : String}
    (h : Alteration change place caller text texts row result)
    (hrow : Refines (answer s) row exchanges) :
    Dialogue s caller text change texts exchanges (sent exchanges) result := by
  cases h with
  | malformed f _ =>
    -- A text that names no space is refused before the first call.
    obtain rfl : exchanges = [] := hrow
    exact .silent f
  | kept space given f _ _ _ =>
    -- The space of a removal is only looked up.
    rw [sent_of_lookups (by simp [Call.IsLookup]) hrow]
    exact .silent _
  | updated space opening rest outcome hspace hopening hupdate =>
    -- The opening looks the space up and sends nothing; the update behind it sends the dialogue.
    obtain ⟨front, behind, rfl, hfront, hbehind⟩ := refines_append.mp hrow
    have hsilent : sent front = [] :=
      sent_of_lookups (fun e he => ⟨_, hopening.calls e he⟩) hfront
    rw [sent_append, hsilent, List.nil_append]
    exact (dialogue_of_update hspace hupdate hbehind fun e he =>
      List.mem_append_right _ he).through place

end PolicyServer

end Roster
