import Roster.Proofs.Stages

/-!
# The first stage decides

What a request ends with is what is wrong at the first of its stages where something is wrong, and it
succeeds if nothing is wrong anywhere (`first_stage_decides`).

The proof follows the request. A part of it whose complaint is that of some stages, followed by a
part whose complaint is that of others, has the complaint of all of them in a row (`complaint_bind`).
What the rest of the request has to know of a part that succeeded is its value and the state that it
leaves: the backend as it was, or as it is after a fetch, and the number of calls so far.
-/

namespace Roster

open Service Attempt

/-! ### Results, states and calls of attempts -/

namespace Attempt

variable {I : Interface} {α β σ : Type} {handler : Handler I σ} {state : σ}

/-- The result of an attempt that starts from a state. -/
def result (handler : Handler I σ) (state : σ) (x : Attempt I α) : Result α :=
  (Program.run handler x.run state).value

/-- The state that an attempt leaves. -/
def after (handler : Handler I σ) (state : σ) (x : Attempt I α) : σ :=
  (Program.run handler x.run state).state

/-- The calls that an attempt makes from a state on. -/
def calls (handler : Handler I σ) (state : σ) (x : Attempt I α) : List I.Call :=
  (Program.run handler x.run state).calls

theorem result_bind (x : Attempt I α) (next : α → Attempt I β) :
    result handler state (x >>= next) =
      (result handler state x).bind fun value =>
        result handler (after handler state x) (next value) := by
  -- A part that fails is followed by nothing, and both sides stop at its failure.
  show (Program.run handler (x.run >>= _) state).value = _
  simp only [Program.run_bind, result, after]
  cases (Program.run handler x.run state).value <;> rfl

theorem after_bind_of_ok {x : Attempt I α} {value : α} (h : result handler state x = .ok value)
    (next : α → Attempt I β) :
    after handler state (x >>= next) = after handler (after handler state x) (next value) := by
  show (Program.run handler (x.run >>= _) state).state = _
  rw [result] at h
  simp only [Program.run_bind, h]
  rfl

theorem calls_bind (x : Attempt I α) (next : α → Attempt I β) :
    calls handler state (x >>= next) = calls handler state x ++
      match result handler state x with
      | .ok value => calls handler (after handler state x) (next value)
      | .error _ => [] := by
  show (Program.run handler (x.run >>= _) state).calls = _
  simp only [Program.run_bind, Run.calls, List.map_append, result, after, calls]
  -- Behind a part that fails there are no calls.
  cases (Program.run handler x.run state).value <;> rfl

/-- Behind a part that succeeds come the calls of the rest. -/
theorem calls_bind_of_ok {x : Attempt I α} {value : α} (h : result handler state x = .ok value)
    (next : α → Attempt I β) :
    calls handler state (x >>= next) =
      calls handler state x ++ calls handler (after handler state x) (next value) := by
  rw [calls_bind, h]

@[simp] theorem result_ofResult (r : Result α) :
    result handler state (ofResult r) = r := rfl

@[simp] theorem after_ofResult (r : Result α) :
    after handler state (ofResult r) = state := rfl

@[simp] theorem result_consult (call : I.Call) (read : I.Answer call → Result α) :
    result handler state (consult call read) = read (handler call state).1 := rfl

@[simp] theorem after_consult (call : I.Call) (read : I.Answer call → Result α) :
    after handler state (consult call read) = (handler call state).2 := rfl

@[simp] theorem calls_ofResult (r : Result α) :
    calls handler state (ofResult r) = [] := rfl

theorem result_map (f : α → β) (x : Attempt I α) :
    result handler state (f <$> x) = (result handler state x).map f := by
  rw [map_eq_pure_bind, result_bind]
  cases result handler state x <;> rfl

theorem calls_map (f : α → β) (x : Attempt I α) :
    calls handler state (f <$> x) = calls handler state x := by
  rw [map_eq_pure_bind, calls_bind]
  cases result handler state x <;> exact List.append_nil _

theorem result_through (place : String) (x : Attempt I α) :
    result handler state (x.through place) = (result handler state x).through place := by
  show (Program.run handler (Result.through place <$> x.run) state).value = _
  rw [map_eq_pure_bind, Program.run_bind]
  rfl

theorem after_through (place : String) (x : Attempt I α) :
    after handler state (x.through place) = after handler state x := by
  show (Program.run handler (Result.through place <$> x.run) state).state = _
  rw [map_eq_pure_bind, Program.run_bind]
  rfl

theorem calls_through (place : String) (x : Attempt I α) :
    calls handler state (x.through place) = calls handler state x := by
  show (Program.run handler (Result.through place <$> x.run) state).calls = _
  rw [map_eq_pure_bind, Program.run_bind]
  simp only [Run.calls, calls, Program.pure_eq_done, Program.run_done, List.append_nil]

end Attempt

/-- The backend with the faults of a moment. -/
def Backend.meeting (b : Backend) (faults : Faults) : Backend :=
  { b with faults }

namespace Service

/-! ### Complaints along a request -/

variable {α β : Type} {b w : Backend} {plan : Nat → Faults} {faults : Faults} {n : Nat}

/-- What is wrong in a part of a request, and then in the rest of it. -/
theorem complaint_bind {first : Result α} {next : α → Result β} {front rest : List Stage}
    (hfirst : complaint first = firstComplaint b plan front)
    (hnext : ∀ value, first = .ok value → complaint (next value) = firstComplaint b plan rest) :
    complaint (first.bind next) = firstComplaint b plan (front ++ rest) := by
  -- The first complaint of a row is that of its front, or of the rest where the front has none.
  rw [firstComplaint, List.findSome?_append]
  change complaint first = front.findSome? _ at hfirst
  rw [← hfirst]
  cases first with
  | error f => rfl
  | ok value => exact hnext value rfl

theorem firstComplaint_singleton (stage : Stage) :
    firstComplaint b plan [stage] = stage.complaint? b plan := by
  rw [firstComplaint, List.findSome?_cons, List.findSome?_nil]
  cases stage.complaint? b plan <;> rfl

/-- What is wrong at a stage, and then in the rest of a request. -/
theorem complaint_bind_cons {first : Result α} {next : α → Result β} {stage : Stage}
    {rest : List Stage} (hfirst : complaint first = stage.complaint? b plan)
    (hnext : ∀ value, first = .ok value → complaint (next value) = firstComplaint b plan rest) :
    complaint (first.bind next) = firstComplaint b plan (stage :: rest) :=
  complaint_bind (hfirst.trans (firstComplaint_singleton stage).symm) hnext

theorem complaint_map (r : Result α) (f : α → β) : complaint (r.map f) = complaint r := by
  cases r <;> rfl

theorem complaint_through (r : Result α) (place : String) :
    complaint (r.through place) = complaint r := by
  cases r <;> rfl

theorem complaint_idOf (malformed : String → Refusal) (text : String) :
    complaint (idOf malformed text) =
      (ifMissing (Uuid.parse? text) (malformed text).message).map ((malformed text).kind, ·) := by
  rw [idOf]
  cases Uuid.parse? text <;> rfl

/-- What is wrong with the answer to a lookup that may meet a fault. -/
theorem complaint_entryOf (kind : FailureKind) (missing : Refusal) (hkind : missing.kind = kind)
    (fault : Option Failure) (found : Option α) :
    complaint (entryOf kind missing (Backend.failingWith fault (.ok found))) =
      (faultOr fault (ifMissing found missing.message)).map (kind, ·) := by
  subst hkind
  cases fault <;> cases found <;> rfl

theorem complaint_leaveOf (fault : Option Failure) (verdict : Result Bool) :
    complaint (leaveOf (Backend.failingWith fault verdict)) =
      (faultOr fault (denied? verdict)).map (.unauthorized, ·) := by
  rcases fault with _ | f
  · -- The verdict fails, forbids or allows, once no fault hides it.
    rcases verdict with f | _ | _ <;> rfl
  · rfl

/-- What is wrong with the member list when a change is made to it. -/
theorem complaint_apply (change : Change) (id : Uuid) (policy : Policy) :
    complaint ((change.apply id policy).mapError (·.failure)) =
      (unreadable? policy).map (.serverError, ·) := by
  rw [Change.apply, unreadable?]
  cases policy.members <;> rfl

/-! ### Calls that meet faults

Before each call the faults of the moment replace those of the call before, so what a backend met
last does not matter.
-/

theorem answerUnder_meeting (call : Call) :
    Backend.answerUnder plan call (b.meeting faults, n) =
      (((b.meeting (plan n)).answer call).1, ((b.meeting (plan n)).answer call).2, n + 1) := rfl

theorem answerUnder_authorize (caller : Option Caller) (space : Uuid) :
    Backend.answerUnder plan (.authorize caller space) (w.meeting faults, n) =
      (Backend.failingWith (plan n).authorize w.verdict, w.meeting (plan n), n + 1) := rfl

theorem answerUnder_find (lookup : Lookup) :
    Backend.answerUnder plan (.find lookup) (w.meeting faults, n) =
      (Backend.failingWith ((plan n).find lookup) (.ok (w.directory.find? lookup)),
        w.meeting (plan n), n + 1) := rfl

/-- Looking up one identity of a row and changing the policy by it, then the rest of the row. -/
theorem result_changeEach_cons {change : Change} {text : String} {rest : List String}
    {policy : Policy} {changed : Bool} :
    result (Backend.answerUnder plan) (w.meeting faults, n)
        (changeEach change (text :: rest) (policy, changed)) =
      (idOf .malformedIdentity text).bind fun id =>
        (entryOf .notFound .unknownIdentity (Backend.failingWith (plan n).identity
            (.ok (w.directory.find? (.identity id))))).bind fun _ =>
          ((change.apply id policy).mapError (·.failure)).bind fun state =>
            result (Backend.answerUnder plan) (w.meeting (plan n), n + 1)
              (changeEach change rest (state.1, changed || state.2)) := by
  -- Reading a text makes no call: it has a result, and leaves the state as it is.
  have hread : result (Backend.answerUnder plan) (w.meeting faults, n) (readIdentity text) =
      idOf .malformedIdentity text := by
    rw [readIdentity, idOf]
    cases Uuid.parse? text <;> rfl
  have hafter : after (Backend.answerUnder plan) (w.meeting faults, n) (readIdentity text) =
      (w.meeting faults, n) := by
    rw [readIdentity]
    cases Uuid.parse? text <;> rfl
  rw [changeEach_cons, result_bind, hread, hafter]
  -- The result of the rest is compared for each identifier, and then for each entry.
  refine congrArg _ (funext fun id => ?_)
  rw [result_bind, result_consult, after_consult, answerUnder_find]
  refine congrArg _ (funext fun _ => ?_)
  rw [result_bind, result_ofResult, after_ofResult]

/-- Lookups leave a backend the same apart from its faults. -/
theorem exists_meeting_of_lookups {exchanges : List Exchanged} {last : Backend × Nat}
    (hanswers : Answers (Backend.answerUnder plan) (w.meeting faults, n) exchanges last)
    (hlookups : ∀ e ∈ exchanges, e.call.IsLookup) :
    ∃ faults', last = (w.meeting faults', n + exchanges.length) := by
  -- The number of the call goes up by one with each lookup, and the faults are those of the last
  -- one.
  induction exchanges generalizing faults n with
  | nil => exact ⟨faults, hanswers⟩
  | cons e rest ih =>
    obtain ⟨call, answer⟩ := e
    obtain ⟨⟨lookup, hcall⟩, hrest⟩ := List.forall_mem_cons.mp hlookups
    change call = .find lookup at hcall
    subst hcall
    have hbehind : Answers (Backend.answerUnder plan) (w.meeting (plan n), n + 1) rest last :=
      hanswers.2
    obtain ⟨faults', hlast⟩ := ih hbehind hrest
    exact ⟨faults', by rw [hlast, List.length_cons, Nat.add_right_comm, Nat.add_assoc]⟩

/-- Where changing a policy by each identity succeeds, as many calls were made as there are
identities, and the policy is changed by all of them. -/
theorem changeEach_of_ok {change : Change} {texts : List String} {policy : Policy}
    {state : Policy × Bool}
    (h : result (Backend.answerUnder plan) (w.meeting faults, n)
      (changeEach change texts (policy, false)) = .ok state) :
    change.applyEach (texts.filterMap Uuid.parse?) (policy, false) = .ok state ∧
      ∃ faults', after (Backend.answerUnder plan) (w.meeting faults, n)
        (changeEach change texts (policy, false)) = (w.meeting faults', n + texts.length) := by
  have hshows := Program.shows_run (Backend.answerUnder plan)
    (changeEach change texts (policy, false)).run (w.meeting faults, n)
  have hanswers := answers_run (Backend.answerUnder plan)
    (changeEach change texts (policy, false)).run (w.meeting faults, n)
  -- All calls are lookups of identities, so the state is followed by their number.
  obtain ⟨faults', hlast⟩ := exists_meeting_of_lookups hanswers fun e he => by
    obtain ⟨id, hid⟩ := changeEach_only _ _ _ hshows e he
    exact ⟨_, hid⟩
  rw [result] at h
  rw [h] at hshows
  -- The row that the run shows tells what was applied, and that there is one lookup per identity.
  obtain ⟨xs, htexts, hfound, happlied⟩ := changeEach_eq_ok hshows
  have hxs : texts.filterMap Uuid.parse? = xs := by
    calc texts.filterMap Uuid.parse?
      _ = (texts.map Uuid.parse?).filterMap id := by rw [List.filterMap_map, Function.id_comp]
      _ = (xs.map some).filterMap id := by rw [htexts]
      _ = xs := by rw [List.filterMap_map, Function.id_comp, List.filterMap_some]
  have hlength : texts.length = xs.length := by
    simpa using congrArg List.length htexts
  rw [hxs]
  exact ⟨happlied, faults', by rw [after, hlast, hlength, hfound.length_eq]⟩

/-- What is wrong with changing a policy by each identity, if its member list reads as that of the
policy of the space. -/
theorem complaint_changeEach (hdirectory : w.directory = b.directory) {text : String}
    {original policy : Policy} (horiginal : b.policyOf? text = some original)
    (hsame : unreadable? policy = unreadable? original) (change : Change) (texts : List String)
    (changed : Bool) :
    complaint (result (Backend.answerUnder plan) (w.meeting faults, n)
        (changeEach change texts (policy, changed))) =
      firstComplaint b plan (changeStages text texts n) := by
  induction texts generalizing policy changed faults n with
  | nil => rfl
  | cons identity rest ih =>
    -- The stages of one identity are three: its text, its entry and the member list.
    rw [result_changeEach_cons, changeStages, List.zipIdx_cons, List.flatMap_cons]
    refine complaint_bind_cons (complaint_idOf _ _) fun id hid => ?_
    rw [idOf_eq_ok] at hid
    refine complaint_bind_cons ?_ fun _ _ => ?_
    · -- The directory is the one at the start, so the entry is found in it or not.
      rw [complaint_entryOf .notFound .unknownIdentity rfl, Stage.complaint?, Stage.message?,
        Stage.kind, identityOf?, hid, Option.bind_some, hdirectory]
    refine complaint_bind_cons ?_ fun state hstate => ?_
    · rw [complaint_apply, hsame, Stage.complaint?, Stage.message?, Stage.kind, horiginal,
        Option.bind_some]
    -- Whatever list a change leaves can be read, as could the one before it.
    refine ih ?_ _
    obtain ⟨ids, hids, hchanged, -⟩ := Change.apply_eq_ok (mapError_eq_ok.mp hstate)
    rw [← hsame, unreadable?, unreadable?, hids, hchanged]

/-! ### Fetching the policy of a space -/

/-- What is wrong with fetching a policy, and what has been fetched where nothing is. -/
theorem complaint_fetch {text : String} {space : Uuid} {resource : SpaceResource}
    (hspace : Uuid.parse? text = some space)
    (hresource : b.directory.find? (.resource space) = some resource) :
    let answer := Backend.answerUnder plan (.fetch resource.policyId) (b.meeting faults, n)
    complaint (Result.as .serverError answer.1) = Stage.complaint? b plan (.fetch n text) ∧
      ∀ policy token, answer.1 = .ok (policy, token) → b.policyOf? text = some policy ∧
        token = PolicyStore.token (b.store.issued + 1) ∧
        answer.2 = (b.afterFetch.meeting (plan n), n + 1) := by
  -- The policy of the space is the one under the name of its resource.
  have hpolicy : b.policyOf? text = b.store.get? resource.policyId := by
    rw [Backend.policyOf?, hspace]
    show (b.directory.find? (.resource space)).bind _ = _
    rw [hresource]
    rfl
  rw [answerUnder_meeting, Stage.complaint?, Stage.message?, hpolicy]
  -- A fault comes before everything else; without one, there is a policy or there is none.
  cases hfault : (plan n).fetch with
  | some f =>
    have hanswer : ((b.meeting (plan n)).answer (.fetch resource.policyId)).1 = .error f := by
      rw [Backend.answer, Backend.meeting, hfault]
    rw [hanswer]
    refine ⟨rfl, fun policy token h => ?_⟩
    cases h
  | none =>
    cases hget : b.store.get? resource.policyId with
    | none =>
      have hanswer : ((b.meeting (plan n)).answer (.fetch resource.policyId)).1 =
          .error PolicyStore.unknownPolicy := by
        rw [Backend.answer, Backend.meeting, hfault, PolicyStore.fetch, hget]
      rw [hanswer]
      refine ⟨rfl, fun policy token h => ?_⟩
      cases h
    | some found =>
      have hanswer := Backend.answer_fetch (b := b.meeting (plan n)) hfault hget
      rw [hanswer]
      refine ⟨rfl, fun policy token h => ?_⟩
      cases h
      exact ⟨rfl, rfl, rfl⟩

/-- What is wrong with finding and fetching the policy of a space. -/
theorem complaint_fetchOf (b : Backend) (plan : Nat → Faults) {text : String} {space : Uuid}
    (hspace : Uuid.parse? text = some space) :
    complaint (result (Backend.answerUnder plan) (b.meeting faults, n) (fetchOf space)) =
        firstComplaint b plan [.resource n text, .fetch (n + 1) text] ∧
      ∀ policy token, result (Backend.answerUnder plan) (b.meeting faults, n) (fetchOf space) =
          .ok (policy, token) →
        b.policyOf? text = some policy ∧ token = PolicyStore.token (b.store.issued + 1) ∧
          after (Backend.answerUnder plan) (b.meeting faults, n) (fetchOf space) =
            (b.afterFetch.meeting (plan (n + 1)), n + 2) := by
  have hlookup : complaint (entryOf .notFound .unknownResource
      (Backend.failingWith (plan n).resource (.ok (b.directory.find? (.resource space))))) =
      Stage.complaint? b plan (.resource n text) := by
    rw [complaint_entryOf .notFound .unknownResource rfl, Stage.complaint?, Stage.message?,
      Stage.kind, resourceOf?, hspace, Option.bind_some]
  have hfound {resource : SpaceResource} (h : entryOf .notFound .unknownResource
      (Backend.failingWith (plan n).resource (.ok (b.directory.find? (.resource space)))) =
      .ok resource) : b.directory.find? (.resource space) = some resource :=
    Except.ok.inj (Backend.failingWith_eq_ok (entryOf_eq_ok.mp h))
  rw [fetchOf_eq, result_bind]
  -- The stages are those of the lookup and of the fetch.
  refine ⟨complaint_bind_cons hlookup fun resource hresource => ?_, fun policy token h => ?_⟩
  · rw [firstComplaint_singleton]
    exact (complaint_fetch hspace (hfound hresource)).1
  · obtain ⟨resource, hresource, hfetch⟩ := bind_eq_ok.mp h
    rw [after_bind_of_ok hresource]
    exact (complaint_fetch hspace (hfound hresource)).2 policy token (Result.as_eq_ok.mp hfetch)

/-! ### Requests to change members -/

/-- A row of changes tells whether it makes a difference to the member list. -/
theorem differs_eq {change : Change} {texts : List String} {original policy : Policy}
    {changed : Bool} (h : change.applyEach (texts.filterMap Uuid.parse?) (original, false) =
      .ok (policy, changed)) : differs change texts original = changed := by
  -- A list that can be read is changed by the whole row, and the flag says whether it is another
  -- one.
  rw [differs]
  cases hmembers : original.members with
  | ok ids =>
    rw [Change.applyEach_of_members hmembers] at h
    by_cases hsame : change.netMembers (texts.filterMap Uuid.parse?) ids = ids
    · rw [if_pos hsame] at h
      cases h
      simp [hsame]
    · rw [if_neg hsame] at h
      cases h
      simp [hsame]
  | error e =>
    -- Only an empty row can be made to a list that cannot be read.
    by_cases hnone : texts.filterMap Uuid.parse? = []
    · rw [hnone] at h
      cases h
      rfl
    · rw [Change.applyEach_of_error hmembers hnone] at h
      cases h

/-- What is wrong with storing a policy with the token that it was fetched with. -/
theorem complaint_store (policy : Policy) :
    complaint (Result.as .serverError (Backend.answerUnder plan
        (.store policy (PolicyStore.token (b.store.issued + 1)))
        (b.afterFetch.meeting faults, n)).1) =
      (faultOr (plan n).store
        (if b.store.lagging then some PolicyStore.outdatedToken.message else none)).map
          (.serverError, ·) := by
  rw [answerUnder_meeting]
  -- The fault comes first, and then the token, which a store that lags takes for an old one.
  cases hfault : (plan n).store with
  | some f =>
    rw [Backend.answer, Backend.meeting, hfault]
    rfl
  | none =>
    cases hlagging : b.store.lagging with
    | false =>
      have hstored : ((b.afterFetch.meeting (plan n)).answer
          (.store policy (PolicyStore.token (b.store.issued + 1)))).1 = .ok () :=
        congrArg Prod.fst (Backend.answer_store (b := b.meeting (plan n)) ⟨hfault, hlagging⟩ policy)
      rw [hstored]
      rfl
    | true =>
      -- Another token has been issued meanwhile.
      have hissued : (b.afterFetch.meeting (plan n)).store.issued = b.store.issued + 2 := by
        simp [Backend.meeting, Backend.afterFetch, Backend.holding, hlagging]
      have hstale : PolicyStore.token (b.store.issued + 1) ≠ PolicyStore.token (b.store.issued + 2) :=
        fun h => absurd (PolicyStore.token_inj h) (by omega)
      have hfault' : (b.afterFetch.meeting (plan n)).faults.store = none := hfault
      rw [Backend.answer, hfault', PolicyStore.store, hissued, if_neg hstale]
      rfl

/-- What is wrong with storing a policy that was fetched and changed. -/
theorem complaint_finish {text : String} {texts : List String} {change : Change}
    {original policy : Policy} {changed : Bool} (horiginal : b.policyOf? text = some original)
    (happlied : change.applyEach (texts.filterMap Uuid.parse?) (original, false) =
      .ok (policy, changed)) (space : Uuid) (caller : Option Caller) :
    complaint (result (Backend.answerUnder plan) (b.afterFetch.meeting faults, n)
        (finish space caller change (PolicyStore.token (b.store.issued + 1)) (policy, changed))) =
      firstComplaint b plan [.store n change text texts] := by
  -- Whether the stage stores anything is what the changes tell.
  have hstage : Stage.message? b plan (.store n change text texts) = if changed then
      faultOr (plan n).store
        (if b.store.lagging then some PolicyStore.outdatedToken.message else none)
      else none := by
    rw [Stage.message?, horiginal, Option.any_some, differs_eq happlied]
  -- Without a difference nothing is stored, and there is nothing that could be wrong.
  cases changed with
  | false =>
    rw [firstComplaint, List.findSome?_cons, Stage.complaint?, hstage]
    rfl
  | true =>
    rw [finish, result_bind]
    refine complaint_bind_cons ?_ fun _ _ => rfl
    rw [Stage.complaint?, hstage]
    exact complaint_store policy

theorem update_eq_fetchOf (change : Change) (caller : Option Caller) (space : Uuid)
    (texts : List String) :
    update change caller space texts =
      consult (I := interface) (.authorize caller space) leaveOf >>= fun _ =>
        fetchOf space >>= fun fetched =>
          changeEach change texts (fetched.1, false) >>= finish space caller change fetched.2 := by
  rw [update_eq, fetchOf_eq]
  simp only [bind_assoc]

/-- What is wrong with an update. -/
theorem complaint_update {text : String} {space : Uuid} (hspace : Uuid.parse? text = some space)
    (change : Change) (caller : Option Caller) (texts : List String) :
    complaint (result (Backend.answerUnder plan) (b.meeting faults, n)
        (update change caller space texts)) =
      firstComplaint b plan (updateStages change text texts n) := by
  rw [update_eq_fetchOf, result_bind, updateStages, result_consult, after_consult,
    answerUnder_authorize]
  -- Leave is asked for first, and its fault is that of the first call.
  refine complaint_bind_cons (complaint_leaveOf _ _) fun _ _ => ?_
  obtain ⟨hfetch, hfetched⟩ := complaint_fetchOf b plan hspace
  rw [result_bind]
  refine complaint_bind hfetch fun fetched hanswer => ?_
  obtain ⟨policy, token⟩ := fetched
  obtain ⟨hpolicy, rfl, hstate⟩ := hfetched policy token hanswer
  -- From here on the backend is the one after the fetch, whose directory is the same.
  rw [hstate, result_bind]
  refine complaint_bind
    (complaint_changeEach (w := b.afterFetch) rfl hpolicy rfl change texts false)
    fun state hchanged => ?_
  obtain ⟨happlied, faults', hafter⟩ := changeEach_of_ok hchanged
  rw [hafter]
  exact complaint_finish hpolicy happlied space caller

/-- What is wrong with removing identities from a space: the space is not there, or one of them owns
it. -/
theorem complaint_removableOf {text : String} {space : Uuid}
    (hspace : Uuid.parse? text = some space) (texts : List String) :
    complaint (removableOf texts
        (Backend.failingWith (plan n).space (.ok (b.directory.find? (.space space))))) =
      firstComplaint b plan [.space n text, .owner text texts] := by
  -- The space is found by the same text, so the stage says the same about it.
  have hfound : spaceOf? b text = b.directory.find? (.space space) := by
    rw [spaceOf?, hspace, Option.bind_some]
  refine complaint_bind_cons ?_ fun found hanswer => ?_
  · rw [complaint_entryOf .notFound .unknownSpace rfl, Stage.complaint?, Stage.message?, hfound]
    rfl
  · have hthere := Except.ok.inj (Backend.failingWith_eq_ok (entryOf_eq_ok.mp hanswer))
    rw [firstComplaint, List.findSome?_cons, Stage.complaint?, Stage.message?, hfound, hthere,
      Option.any_some]
    cases namesOwner found texts <;> rfl

/-- What is wrong with a request to change the members of a space. -/
theorem complaint_alter (change : Change) (place : String) (caller : Option Caller) (text : String)
    (texts : List String) :
    complaint (result (Backend.answerUnder plan) (b.meeting faults, 0)
        (alter change place caller text texts)) =
      firstComplaint b plan (alterStages text texts change) := by
  cases change with
  | add =>
    -- The place changes the text of where a failure was, and neither its kind nor its message.
    rw [alter, readId_eq, result_through, complaint_through, result_bind, alterStages]
    refine complaint_bind_cons (complaint_idOf _ _) fun space hspace => ?_
    exact complaint_update (idOf_eq_ok.mp hspace) .add caller texts
  | remove =>
    rw [alter, readId_eq, result_bind, alterStages]
    refine complaint_bind_cons (complaint_idOf _ _) fun space hspace => ?_
    rw [result_ofResult, idOf_eq_ok] at hspace
    -- The owner is looked up with the first call, so the update has the calls from the second one
    -- on.
    rw [result_through, complaint_through, keepOwner_eq, result_bind]
    refine complaint_bind (complaint_removableOf hspace texts) fun _ _ => ?_
    exact complaint_update hspace .remove caller texts

/-! ### Listings -/

/-- Looking up a member meets the fault of the moment, and makes one call. -/
theorem result_member (w : Backend) (plan : Nat → Faults) (id : Uuid) :
    result (Backend.answerUnder plan) (w.meeting faults, n) (member id) =
        entryOf .serverError .unknownMember
          (Backend.failingWith (plan n).identity (.ok (w.directory.find? (.identity id)))) ∧
      after (Backend.answerUnder plan) (w.meeting faults, n) (member id) =
        (w.meeting (plan n), n + 1) := by
  have hfind : result (Backend.answerUnder plan) (w.meeting faults, n) (find (.identity id)) =
      .ok (Backend.failingWith (plan n).identity (.ok (w.directory.find? (.identity id)))) := rfl
  have hafter : after (Backend.answerUnder plan) (w.meeting faults, n) (find (.identity id)) =
      (w.meeting (plan n), n + 1) := rfl
  -- What is done with the answer asks nothing more, whatever the answer is.
  rw [member, entry, result_bind, after_bind_of_ok hfind, hfind, hafter]
  rcases Backend.failingWith (plan n).identity (.ok (w.directory.find? (.identity id))) with
    f | _ | identity <;> exact ⟨rfl, rfl⟩

/-- What is wrong with looking up members in a row. -/
theorem complaint_members (hdirectory : w.directory = b.directory) (ids : List Uuid) :
    complaint (result (Backend.answerUnder plan) (w.meeting faults, n) (ids.mapM member)) =
      firstComplaint b plan ((ids.zipIdx n).map fun (id, n) => .member n id) := by
  induction ids generalizing faults n with
  | nil => rfl
  | cons id rest ih =>
    obtain ⟨hresult, hafter⟩ := result_member w plan id
    rw [List.mapM_cons, result_bind, hresult, hafter, List.zipIdx_cons, List.map_cons]
    refine complaint_bind_cons ?_ fun identity _ => ?_
    · -- The member is looked up in the directory, which is the same as at the start.
      rw [complaint_entryOf .serverError .unknownMember rfl, Stage.complaint?, Stage.message?,
        hdirectory]
      rfl
    · rw [result_bind]
      exact (complaint_map _ _).trans ih

/-- What is wrong with showing a page of a policy that was fetched. -/
theorem complaint_listed {text : String} {policy : Policy} (hpolicy : b.policyOf? text = some policy)
    (space : Uuid) (page : PageRequest) (path : String) :
    complaint (result (Backend.answerUnder plan) (b.afterFetch.meeting faults, n)
        (listed space page path policy)) =
      firstComplaint b plan
        (.memberList text :: ((membersOn b text page).zipIdx n).map fun (id, n) => .member n id) := by
  -- Reading the list asks nothing, so the lookups of the members are the calls behind the fetch.
  have hmembers : result (Backend.answerUnder plan) (b.afterFetch.meeting faults, n)
      (membersOf space policy) = policy.members.mapError (·.failure) := by
    rw [membersOf]
    cases policy.members <;> rfl
  have hafter : after (Backend.answerUnder plan) (b.afterFetch.meeting faults, n)
      (membersOf space policy) = (b.afterFetch.meeting faults, n) := by
    rw [membersOf]
    cases policy.members <;> rfl
  rw [listed, result_bind, hmembers, hafter]
  refine complaint_bind_cons ?_ fun ids hids => ?_
  · rw [Stage.complaint?, Stage.message?, hpolicy, Option.bind_some, unreadable?]
    cases policy.members <;> rfl
  · have hpage : membersOn b text page =
        (Window.of ids.length.toUInt64 page.start page.size).items ids := by
      rw [membersOn, hpolicy, Option.map_some, mapError_eq_ok.mp hids]
    rw [hpage, result_bind]
    exact (complaint_map _ _).trans (complaint_members (w := b.afterFetch) rfl _)

/-- What is wrong with a listing. -/
theorem complaint_list (text : String) (page : PageRequest) (path : String) :
    complaint (result (Backend.answerUnder plan) (b.meeting faults, 0) (list text page path)) =
      firstComplaint b plan (Request.stages b (.list text page path)) := by
  rw [list_eq, result_bind, Request.stages]
  refine complaint_bind_cons (complaint_idOf _ _) fun space hspace => ?_
  rw [result_ofResult, idOf_eq_ok] at hspace
  obtain ⟨hfetch, hfetched⟩ := complaint_fetchOf b plan hspace
  rw [after_ofResult, result_bind, result_through, after_through]
  refine complaint_bind ((complaint_through _ _).trans hfetch) fun fetched hanswer => ?_
  obtain ⟨policy, token⟩ := fetched
  obtain ⟨hpolicy, -, hstate⟩ := hfetched policy token (Result.through_eq_ok.mp hanswer)
  rw [hstate]
  exact complaint_listed hpolicy space page path

/-! ### All requests -/

/-- What is wrong with a request. -/
theorem complaint_perform (b : Backend) (faults : Faults) (r : Request) :
    complaint (result (Backend.answerUnder plan) (b.meeting faults, 0) r.perform) =
      firstComplaint b plan (r.stages b) := by
  cases r with
  | list text page path =>
    rw [Request.perform, result_map, complaint_map]
    exact complaint_list text page path
  | change caller m =>
    rw [Request.perform, result_map, complaint_map, m.perform_eq, alterAll, Request.stages]
    cases m.batch.data with
    | none => rfl
    | some entries => exact complaint_alter m.change m.place caller m.space _

/-- No stage fails with the kind of failure that the database or a payload has. -/
theorem Stage.kind_ne (stage : Stage) : stage.kind ≠ .dbError ∧ stage.kind ≠ .invalidBody := by
  cases stage <;> exact ⟨nofun, nofun⟩

/-- **The first stage decides.** Whatever faults the calls meet, a request ends with what is wrong at
the first of its stages where something is wrong, and it succeeds if there is none. So a failure is
never one of the database or of a payload. -/
theorem first_stage_decides (b : Backend) (plan : Nat → Faults) (r : Request) :
    let result := (Program.run (Backend.answerUnder plan) r.perform.run (b, 0)).value
    complaint result = firstComplaint b plan (r.stages b) ∧
      ∀ f, result = .error f → f.kind ≠ .dbError ∧ f.kind ≠ .invalidBody := by
  intro result
  have hfirst : complaint result = firstComplaint b plan (r.stages b) :=
    complaint_perform b b.faults r
  refine ⟨hfirst, fun f hf => ?_⟩
  rw [hf] at hfirst
  -- Whoever complains is a stage, and no stage has one of the two kinds.
  obtain ⟨stage, -, hstage⟩ := List.exists_of_findSome?_eq_some hfirst.symm
  obtain ⟨message, -, hsame⟩ := Option.map_eq_some_iff.mp hstage
  have hkind : stage.kind = f.kind := (Prod.mk.inj hsame).1
  exact hkind ▸ stage.kind_ne

end Service

end Roster
