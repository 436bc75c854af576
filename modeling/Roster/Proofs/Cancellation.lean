import Roster.PolicyServer.Script
import Roster.Proofs.Dialogue
import Roster.Proofs.FirstStage

/-!
# Giving a request up

A request to change members may be given up at any time between two calls of the service. The client
asks for that at the start of each of its calls, and once more right before a policy is on its way.
So behind that point nothing is sent; the next call of the client fails, and with it the request; and
a request that succeeds all the same has stored its policy before, or has nothing to store
(`nothing_sent_behind_cancellation`).

A program that is interrupted is run for some calls, which leaves a program (`Program.runFor`). The
service is run in a session with a scripted server: the client finds the answer to each call, and the
session keeps the requests that were sent. That is what the client and the service come to together
(`Session.run_interpret`).
-/

namespace Roster

/-! ### Programs that are interrupted -/

namespace Program

variable {I : Interface} {σ α : Type} {handler : Handler I σ}

/-- Runs a program for some calls: until that many have been answered, or the program is done. The
value is the program that is left. -/
def runFor (handler : Handler I σ) : Program I α → Nat → σ → Run I σ (Program I α)
  | done value, _, state => ⟨done value, state, [], []⟩
  | note event rest, n, state => (rest.runFor handler n state).afterEvent event
  | ask call rest, 0, state => ⟨ask call rest, state, [], []⟩
  | ask call rest, n + 1, state =>
    let (answer, state) := handler call state
    ((rest answer).runFor handler n state).afterExchange ⟨call, answer⟩

/-- A run is a run for some calls and then, from the state where that ended, a run of the program
that is left. -/
theorem run_runFor (handler : Handler I σ) (p : Program I α) (n : Nat) (state : σ) :
    p.run handler state =
      let first := p.runFor handler n state
      let second := first.value.run handler first.state
      { second with
        exchanges := first.exchanges ++ second.exchanges
        events := first.events ++ second.events } := by
  induction p generalizing n state with
  | done value => rfl
  | note event rest ih => simp [run, runFor, ih n, Run.afterEvent]
  | ask call rest ih =>
    -- The number of calls is used up, or the handler answers one more.
    cases n with
    | zero => rfl
    | succ n => simp [run, runFor, ih _ n, Run.afterExchange]

theorem answers_runFor (handler : Handler I σ) (p : Program I α) (n : Nat) (state : σ) :
    Answers handler state (p.runFor handler n state).exchanges
      (p.runFor handler n state).state := by
  induction p generalizing n state with
  | done value => rfl
  | note event rest ih => exact ih n state
  | ask call rest ih =>
    -- No call has been made yet, or the one in front was answered by the handler.
    cases n with
    | zero => rfl
    | succ n => exact ⟨rfl, ih _ _ _⟩

/-- What the program that is left shows comes behind what was shown so far, whatever happened in
between. -/
theorem shows_runFor {p : Program I α} {n : Nat} {state : σ} {exchanges : List (Exchange I)}
    {last : α} (h : (p.runFor handler n state).value.Shows exchanges last) :
    p.Shows ((p.runFor handler n state).exchanges ++ exchanges) last := by
  induction p generalizing n state with
  | done value => exact h
  | note event rest ih => exact ih h
  | ask call rest ih =>
    cases n with
    | zero => exact h
    | succ n => exact ⟨_, _, rfl, ih _ h⟩

end Program

namespace Service

open Attempt

variable {change : Change} {caller : Option Caller} {space : Uuid} {texts : List String}
  {row before after : List Exchanged} {e : Exchanged} {result : Result Unit} {kind : FailureKind}
  {message : String}

/-! ### Requests whose calls fail -/

/-- What the answer in an exchange says went wrong. -/
def wrong? : Exchanged → Option (FailureKind × String)
  | ⟨.find _, answer⟩ => complaint answer
  | ⟨.authorize _ _, answer⟩ => complaint answer
  | ⟨.fetch _, answer⟩ => complaint answer
  | ⟨.store _ _, answer⟩ => complaint answer

/-- A row of calls that all are lookups or succeed does not hold a call of the other kind. -/
theorem notMem_of_fine {told : FailureKind × String} (hcall : ¬ e.call.IsLookup)
    (hwrong : wrong? e = some told)
    (hrow : ∀ d ∈ row, d.call.IsLookup ∨ wrong? d = none) : e ∉ row := by
  intro hmem
  rcases hrow e hmem with hlookup | hfine
  · exact hcall hlookup
  · rw [hfine] at hwrong
    cases hwrong

theorem held_append_fine {resource : SpaceResource} {policy : Policy} {token : ProtectionToken}
    {state : Policy × Bool} {lookups : List Exchanged} {last : Result (Policy × Bool)}
    (h : Attempt.Shows (changeEach change texts state) lookups last) :
    ∀ d ∈ held caller space resource policy token ++ lookups,
      d.call.IsLookup ∨ wrong? d = none := by
  refine List.forall_mem_append.mpr ⟨by simp [held, wrong?, complaint], fun d hd => ?_⟩
  -- In front of the lookups the row has leave, place and policy, which all went well.
  obtain ⟨x, hx⟩ := changeEach_only state lookups last h d hd
  exact Or.inl ⟨_, hx⟩

/-- Where a call of an update other than a lookup fails, it is the last one, and the update fails with
its message. -/
theorem Update.ends_at_failure (h : Update change caller space texts row result)
    (hrow : row = before ++ e :: after) (hcall : ¬ e.call.IsLookup)
    (hwrong : wrong? e = some (kind, message)) :
    after = [] ∧ complaint result =
      some (if e.call.isAuthorize then .unauthorized else .serverError, message) := by
  have hmem : e ∈ row := by simp [hrow]
  -- An update goes on behind a call only if that went well, so all calls but the last one did.
  cases h with
  | refused answer f hf =>
    -- The only call asks for leave, and its failure is one of leave.
    obtain ⟨-, rfl, rfl⟩ := last_of_notMem [] hrow List.not_mem_nil
    refine ⟨rfl, ?_⟩
    rcases answer with g | _ | _
    · cases hf
      cases hwrong
      rfl
    · cases hwrong
    · cases hwrong
  | unlocated answer f hf =>
    exact absurd hmem
      (notMem_of_fine hcall hwrong (by simp [wrong?, complaint, Call.IsLookup]))
  | unfetched resource f =>
    obtain ⟨-, rfl, rfl⟩ := last_of_notMem [_, _] hrow
      (notMem_of_fine hcall hwrong (by simp [wrong?, complaint, Call.IsLookup]))
    cases hwrong
    exact ⟨rfl, rfl⟩
  | spoilt resource policy token lookups f hf =>
    -- The changes fail by a lookup or without a call, so the failed call is not among these.
    exact absurd hmem (notMem_of_fine hcall hwrong (held_append_fine hf))
  | unchanged resource policy changed token lookups hok =>
    exact absurd hmem (notMem_of_fine hcall hwrong (held_append_fine hok))
  | stored resource policy changed token lookups answer hok =>
    obtain ⟨-, rfl, rfl⟩ := last_of_notMem _ hrow
      (notMem_of_fine hcall hwrong (held_append_fine hok))
    refine ⟨rfl, ?_⟩
    -- The store failed, and its message is passed on.
    cases answer with
    | error g =>
      cases hwrong
      rfl
    | ok _ => cases hwrong

/-- The same for a whole request. -/
theorem Alteration.ends_at_failure {place text : String}
    (h : Alteration change place caller text texts row result)
    (hrow : row = before ++ e :: after) (hcall : ¬ e.call.IsLookup)
    (hwrong : wrong? e = some (kind, message)) :
    after = [] ∧ complaint result =
      some (if e.call.isAuthorize then .unauthorized else .serverError, message) := by
  have hmem : e ∈ row := by simp [hrow]
  cases h with
  | malformed f _ => cases hmem
  | kept space answer f _ _ _ =>
    obtain rfl := List.mem_singleton.mp hmem
    exact absurd ⟨_, rfl⟩ hcall
  | updated space opening rest outcome hspace hopening hupdate =>
    -- The opening has lookups only, so the failed call belongs to the update.
    have hnot : e ∉ opening := fun hopened => hcall ⟨_, hopening.calls e hopened⟩
    obtain ⟨between, rfl, hrest⟩ := exists_eq_append_of_notMem hrow hnot
    rw [complaint_through]
    exact hupdate.ends_at_failure hrest hcall hwrong

/-- A row has no calls but lookups, or a first one that is none. -/
theorem lookups_or_first_other (row : List Exchanged) :
    (∀ e ∈ row, e.call.IsLookup) ∨ ∃ lookups e after, row = lookups ++ e :: after ∧
      (∀ l ∈ lookups, l.call.IsLookup) ∧ ¬ e.call.IsLookup := by
  induction row with
  | nil => exact Or.inl (by simp)
  | cons first rest ih =>
    by_cases hfirst : first.call.IsLookup
    · rcases ih with hall | ⟨lookups, e, after, rfl, hlookups, hcall⟩
      · exact Or.inl (List.forall_mem_cons.mpr ⟨hfirst, hall⟩)
      · exact Or.inr ⟨first :: lookups, e, after, rfl,
          List.forall_mem_cons.mpr ⟨hfirst, hlookups⟩, hcall⟩
    · exact Or.inr ⟨[], first, rest, rfl, by simp, hfirst⟩

end Service

namespace PolicyServer

open Service Attempt

variable {s : RealmSettings} {caller : Option Caller} {change : Change} {texts : List String}
  {row : List Exchanged}

/-! ### Sessions -/

/-- A scripted server and what else a client calls, and what has been sent so far. -/
structure Session where
  /-- The server. -/
  script : Script
  /-- The requests that have been sent, each with its response. -/
  sent : List Sent := []

namespace Session

variable {x y : Session}

/-- Answers a call of the service: the client finds the answer. -/
def answer (s : RealmSettings) : Handler Service.interface Session := fun call x =>
  let found := (PolicyServer.answer s call).run Script.answer x.script
  (found.value, ⟨found.state, x.sent ++ PolicyServer.sent found.exchanges⟩)

/-- The session after the request that is worked for has been given up. -/
def cancel (x : Session) : Session :=
  { x with script := { x.script with cancelled := true } }

/-- A program whose calls are replaced by those of the client comes to what it comes to in a
session. -/
theorem run_interpret {α : Type} (p : Program Service.interface α) (x : Session) :
    let remote := (p.interpret (PolicyServer.answer s)).run Script.answer x.script
    let inside := p.run (answer s) x
    remote.value = inside.value ∧ remote.state = inside.state.script ∧
      inside.state.sent = x.sent ++ PolicyServer.sent remote.exchanges := by
  induction p generalizing x with
  | done value => exact ⟨rfl, rfl, (List.append_nil _).symm⟩
  | note event rest ih => exact ih x
  | ask call rest ih =>
    -- Behind the call the session holds the state that the client left, and what it sent.
    obtain ⟨hvalue, hstate, hsent⟩ := ih (answer s call x).1 (answer s call x).2
    simp only [Program.interpret, Program.run_bind, sent_append]
    refine ⟨hvalue, hstate, hsent.trans ?_⟩
    exact List.append_assoc _ _ _

/-- The answers in a session are found by the client, which sends what the session keeps. -/
theorem refines_of_answers (h : Answers (answer s) x row y) :
    ∃ exchanges, Refines (PolicyServer.answer s) row exchanges ∧
      y.sent = x.sent ++ PolicyServer.sent exchanges := by
  induction row generalizing x with
  | nil =>
    obtain rfl := h
    exact ⟨[], rfl, (List.append_nil _).symm⟩
  | cons e rest ih =>
    -- The answers in a session are those that the client comes to from the script.
    obtain ⟨call, rfl, hrest⟩ := h.exists_cons
    obtain ⟨behind, hbehind, hsent⟩ := ih hrest
    have hshows := Program.shows_run Script.answer (PolicyServer.answer s call) x.script
    refine ⟨_, ⟨_, behind, rfl, hshows, hbehind⟩, ?_⟩
    rw [hsent, sent_append]
    exact List.append_assoc _ _ _

end Session

/-! ### Calls of a request that has been given up -/

/-- An action that is guarded asks whether the request has been given up, and that is the end of
it if it has. -/
theorem run_guarded_of_cancelled {α : Type} {script : Script} (h : script.cancelled = true)
    (action : Action α) :
    Program.run Script.answer (guarded action).run script =
      ⟨.error Trouble.cancelled.failure, script, [⟨.isCancelled, true⟩], []⟩ := by
  -- The question whether the request was given up is the only exchange.
  obtain ⟨responses, cancelled, backend⟩ := script
  change cancelled = true at h
  subst h
  rfl

namespace Session

variable {x y : Session}

/-- A call of a request that has been given up changes nothing, and fails unless it is a lookup. -/
theorem answer_of_cancelled (h : x.script.cancelled = true) (call : Service.Call) :
    (answer s call x).2 = x ∧
      (call.IsLookup ∨
        wrong? ⟨call, (answer s call x).1⟩ = some (.serverError, "Request cancelled")) := by
  -- Each of the three calls about policies is guarded as a whole.
  have hguarded {α : Type} (action : Action α) :
      let found := Program.run Script.answer (guarded action).run x.script
      (⟨found.state, x.sent ++ PolicyServer.sent found.exchanges⟩ : Session) = x ∧
        complaint found.value = some (.serverError, "Request cancelled") := by
    intro found
    have hfound : found = _ := run_guarded_of_cancelled h action
    rw [hfound]
    exact ⟨congrArg (Session.mk x.script) (List.append_nil x.sent), rfl⟩
  cases call with
  | find lookup => exact ⟨congrArg (Session.mk x.script) (List.append_nil x.sent), .inl ⟨lookup, rfl⟩⟩
  | authorize caller space =>
    obtain ⟨hstate, hwrong⟩ := hguarded (PolicyServer.authorize s caller space)
    exact ⟨hstate, .inr hwrong⟩
  | fetch policyId =>
    obtain ⟨hstate, hwrong⟩ := hguarded (PolicyServer.fetch s policyId)
    exact ⟨hstate, .inr hwrong⟩
  | store policy token =>
    obtain ⟨hstate, hwrong⟩ := hguarded (PolicyServer.store s policy token)
    exact ⟨hstate, .inr hwrong⟩

/-- Behind the point where a request has been given up the session stays as it is, and all calls but
lookups fail. -/
theorem eq_of_cancelled (h : x.script.cancelled = true)
    (hanswers : Answers (answer s) x row y) :
    y = x ∧ ∀ e ∈ row,
      e.call.IsLookup ∨ wrong? e = some (.serverError, "Request cancelled") := by
  induction row with
  | nil => exact ⟨hanswers, by simp⟩
  | cons e rest ih =>
    obtain ⟨call, rfl, hrest⟩ := hanswers.exists_cons
    obtain ⟨hsame, hwrong⟩ := answer_of_cancelled (s := s) h call
    -- The session has not changed, so the rest of the row starts from it again.
    rw [hsame] at hrest
    obtain ⟨hlast, hothers⟩ := ih hrest
    exact ⟨hlast, List.forall_mem_cons.mpr ⟨hwrong, hothers⟩⟩

end Session

/-! ### Requests that are given up -/

/-- Among the requests that were sent is one that stored a policy. -/
def HasStored (s : RealmSettings) (requests : List Sent) : Prop :=
  ∃ policyId token policy response,
    (storeRequest s policyId token policy, response) ∈ requests ∧ isStored response = true

/-- Among the requests that were sent is one that got a policy which the changes leave as it is. -/
def HasNothingToStore (s : RealmSettings) (change : Change) (texts : List String)
    (requests : List Sent) : Prop :=
  ∃ policyId token policy response, (fetchRequest s policyId token, response) ∈ requests ∧
    policyIn? response = some policy ∧ Keeps change texts policy

/-- A dialogue that ends well has stored the policy, or has nothing to store. -/
theorem Dialogue.stored_or_nothing {text : String} {exchanges : List (Exchange wire)}
    {requests : List Sent} (h : Dialogue s caller text change texts exchanges requests (.ok ())) :
    HasStored s requests ∨ HasNothingToStore s change texts requests := by
  generalize hresult : (Except.ok () : Result Unit) = result at h
  cases h with
  | silent => cases hresult
  | entitlement => cases hresult
  | token => cases hresult
  | fetch c space resource token first second third _ _ _ _ _ _ hkeeps =>
    -- The fetch request was the last one and the request succeeded, so there was nothing to change.
    obtain ⟨policy, hpolicy, hkept⟩ := hkeeps hresult.symm
    exact Or.inr ⟨resource.policyId, token, policy, third, by simp, hpolicy, hkept⟩
  | store c space resource token policy policyId users first second third fourth _ _ _ _ _ _ _ _ _ _
      hstored =>
    exact Or.inl ⟨policyId, token, policy.withUsers users, fourth, by simp,
      hstored.mp hresult.symm⟩

/-- **Giving a request up stops it from sending anything.** Let a request to change members be run by
way of a scripted server, and be given up after any number of calls of the service. From then on:

* Nothing is sent any more.
* What else is called are lookups, or the first call that is none is the last one of all. It fails as
  a cancelled one, and the request fails with the same message; only the kind is another one if it
  was leave that was asked for.
* If the request succeeds all the same, it has stored a policy before, or the policy that it got
  before is one that the changes leave as it is. A request without identities has nothing to change.
-/
theorem nothing_sent_behind_cancellation (s : RealmSettings) (caller : Option Caller) (m : Mutation)
    (script : Script) (n : Nat) :
    let first := Program.runFor (Session.answer s) (m.perform caller).run n ⟨script, []⟩
    let second := Program.run (Session.answer s) first.value first.state.cancel
    second.state.sent = first.state.sent ∧
      ((∀ e ∈ second.exchanges, e.call.IsLookup) ∨
        ∃ lookups e, second.exchanges = lookups ++ [e] ∧ (∀ l ∈ lookups, l.call.IsLookup) ∧
          ¬ e.call.IsLookup ∧ wrong? e = some (.serverError, "Request cancelled") ∧
          complaint second.value = some
            (if e.call.isAuthorize then .unauthorized else .serverError, "Request cancelled")) ∧
      (second.value = .ok () → ∀ entries, m.batch.data = some entries →
        HasStored s first.state.sent ∨
          HasNothingToStore s m.change (entries.filterMap id) first.state.sent) := by
  intro first second
  -- Both runs together are one row of the request, with the point of cancellation inside it.
  have hfirst : Answers (Session.answer s) ⟨script, []⟩ first.exchanges first.state :=
    Program.answers_runFor _ _ n _
  have hsecond : Answers (Session.answer s) first.state.cancel second.exchanges second.state :=
    answers_run _ _ _
  have hshows : Attempt.Shows (m.perform caller) (first.exchanges ++ second.exchanges)
      second.value := Program.shows_runFor (Program.shows_run _ _ _)
  -- From the cancelled session on, nothing is sent and nothing changes.
  obtain ⟨hstate, hwrong⟩ := Session.eq_of_cancelled rfl hsecond
  have hsent : second.state.sent = first.state.sent := by
    rw [hstate]
    rfl
  refine ⟨hsent, ?_, fun hok entries hentries => ?_⟩
  · rcases lookups_or_first_other second.exchanges with
      hall | ⟨lookups, e, after, hsplit, hlookups, hcall⟩
    · exact Or.inl hall
    -- The first call that is no lookup fails, so nothing comes behind it.
    have hfailed : wrong? e = some (.serverError, "Request cancelled") :=
      (hwrong e (by simp [hsplit])).resolve_left hcall
    have hrow : first.exchanges ++ second.exchanges = (first.exchanges ++ lookups) ++ e :: after := by
      rw [hsplit, List.append_assoc]
    rcases mutation_of_shows hshows with ⟨-, hnone, -⟩ | ⟨entries, -, halteration⟩
    · rw [hrow] at hnone
      simp at hnone
    obtain ⟨rfl, hcomplaint⟩ := halteration.ends_at_failure hrow hcall hfailed
    exact Or.inr ⟨lookups, e, hsplit, hlookups, hcall, hfailed, hcomplaint⟩
  · -- What was sent on both sides of the point is what the client sends for the whole row.
    obtain ⟨front, hfront, hfrontSent⟩ := Session.refines_of_answers hfirst
    obtain ⟨behind, hbehind, hbehindSent⟩ := Session.refines_of_answers hsecond
    have hrow : Refines (PolicyServer.answer s) (first.exchanges ++ second.exchanges)
        (front ++ behind) := refines_append.mpr ⟨front, behind, rfl, hfront, hbehind⟩
    have hall : PolicyServer.sent (front ++ behind) = first.state.sent := by
      rw [sent_append, ← hsent, hbehindSent]
      show _ = first.state.sent ++ _
      rw [hfrontSent]
      rfl
    rcases mutation_of_shows hshows with ⟨hdata, -, -⟩ | ⟨others, hdata, halteration⟩
    · rw [hdata] at hentries
      cases hentries
    · obtain rfl : others = entries := Option.some.inj (hdata.symm.trans hentries)
      have hdialogue := dialogue_of_alteration halteration hrow
      -- Everything was sent before the point, so the dialogue is about what had been sent by then.
      rw [hall, hok] at hdialogue
      exact hdialogue.stored_or_nothing

/-- What a server answers up to the policy if a request is allowed. The grant is for the space whose
digits are all zero, and the policy has no users. -/
def Script.granting : Script where
  responses := some <| [
    "\x7b\"rpt\":\"eyJhbGciOiJIUzI1NiJ9.eyJhdXRob3JpemF0aW9uIjp7InBlcm1pc3Npb25zIjpbeyJyZXNvdXJjZV9zZXRfbmFtZSI6IjAwMDAwMDAwLTAwMDAtMDAwMC0wMDAwLTAwMDAwMDAwMDAwMCJ9XX19.eA\"\x7d",
    "\x7b\"access_token\":\"t\"\x7d",
    "\x7b\"id\":\"policy\",\"name\":\"n\",\"type\":\"user\",\"logic\":\"POSITIVE\"," ++
      "\"decisionStrategy\":\"UNANIMOUS\",\"config\":\x7b\"users\":\"[]\"\x7d\x7d"].map
    fun text => ⟨200, Text.utf8 text⟩
  cancelled := false
  backend := Backend.sample

/-- A request that is given up right before it stores a policy has asked for a grant, a token and the
policy. It sends no more, and it fails. -/
theorem given_up_before_storing :
    let first := Program.runFor (Session.answer {})
      ((Mutation.add (Uuid.uniform 0).text (Uuid.uniform 2).text).perform
        (some ⟨.uniform 1, "t"⟩)).run 4 ⟨Script.granting, []⟩
    let second := Program.run (Session.answer {}) first.value first.state.cancel
    first.state.sent.map (·.1.method) = ["POST", "POST", "GET"] ∧
      second.exchanges.map (·.call.isStore) = [true] ∧
      second.state.sent = first.state.sent ∧
      complaint second.value = some (.serverError, "Request cancelled") := by
  have hgivenUp := nothing_sent_behind_cancellation {} (some ⟨.uniform 1, "t"⟩)
    (.add (Uuid.uniform 0).text (Uuid.uniform 2).text) Script.granting 4
  dsimp only at hgivenUp ⊢
  obtain ⟨hsent, hends, -⟩ := hgivenUp
  -- Both runs are computed together, for the one goes on where the other ended.
  refine and_assoc.mp ((and_iff_left_of_imp fun hruns => ⟨hsent, ?_⟩).mpr (by decide +kernel))
  -- The one call of the second run stores, so it is no lookup.
  obtain ⟨e, he, hstores⟩ := List.map_eq_singleton_iff.mp hruns.2
  rcases hends with hall | ⟨lookups, last, hexchanges, -, -, -, hcomplaint⟩
  · obtain ⟨x, hx⟩ := hall e (he ▸ List.mem_singleton_self e)
    rw [hx] at hstores
    cases hstores
  · obtain rfl : last = e := List.mem_singleton.mp (he ▸ by simp [hexchanges])
    match last, hstores, hcomplaint with
    | ⟨.store _ _, _⟩, _, hcomplaint => exact hcomplaint

end PolicyServer

end Roster
