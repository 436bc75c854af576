import Roster.Http.Server
import Roster.Interleaving
import Roster.Proofs.Atomic
import Roster.Proofs.Audience
import Roster.Proofs.Resource

/-!
# The gate in front of the service

Who makes a request is settled before the service is asked to change anything
(`authentication_gate`). The authorizer is asked, and a policy is stored, only for a request with the
method `POST` or `DELETE` under a path that names members, from a caller who is admitted
(`Setting.Admits`); then the run is the one of a mutation for that very caller. Without such a caller
the request is answered with the status 401 and nothing is called. A response with another status
than 200 leaves all policies as they were.

What a request is taken for is said by the cases of `Handled`, and `handled_answerTarget` is where the
router is opened up: each answer is given without a call, or is a listing, or is a mutation. The
listing makes no guarded call; the mutation is met by what is known of all requests to change members
(`Alteration.outcome`).
-/

namespace Roster.Service

open Attempt

/-- The call asks for leave for nobody but a caller. -/
def Call.OnBehalfOf (caller : Option Caller) : Call → Prop
  | .authorize other _ => other = caller
  | .find _ => True
  | .fetch _ => True
  | .store _ _ => True

variable (change : Change) (caller : Option Caller) (texts : List String)

theorem update_onBehalfOf (space : Uuid) :
    Only (Call.OnBehalfOf caller) (update change caller space texts) := by
  have hown : Call.OnBehalfOf caller (.authorize caller space) := rfl
  have heach (state : Policy × Bool) :
      Only (Call.OnBehalfOf caller) (changeEach change texts state) := by
    refine (changeEach_only state).mono fun call hcall => ?_
    obtain ⟨x, rfl⟩ := hcall
    trivial
  -- The policy is stored behind the leave, and that call names no caller.
  have hfinish (token : ProtectionToken) (state : Policy × Bool) :
      Only (Call.OnBehalfOf caller) (finish space caller change token state) := by
    obtain ⟨policy, _ | _⟩ := state
    · exact .of_silent fun _ _ => shows_log
    · exact .bind (.consult trivial _) fun _ => .of_silent fun _ _ => shows_log
  rw [update_eq]
  -- Leave is asked for first; no later call is a question for leave.
  refine .bind (.consult hown _) fun _ => .bind (.consult trivial _) fun _ => ?_
  exact .bind (.consult trivial _) fun fetched => .bind (heach _) fun state => hfinish _ state

/-- A request to change members asks for leave for its caller. -/
theorem alter_onBehalfOf (place text : String) :
    Only (Call.OnBehalfOf caller) (alter change place caller text texts) := by
  cases change with
  | add =>
    rw [alter, readId_eq]
    exact .through (.bind (.ofResult _) fun space => update_onBehalfOf .add caller texts space) place
  | remove =>
    rw [alter, readId_eq]
    refine .bind (.ofResult _) fun space => .through ?_ place
    -- The lookup of the owner in front of the update is no question for leave.
    rw [keepOwner_eq]
    exact .bind (.consult trivial _) fun _ => update_onBehalfOf .remove caller texts space

theorem Mutation.perform_onBehalfOf (m : Mutation) :
    Only (Call.OnBehalfOf caller) (m.perform caller) := by
  rw [m.perform_eq, alterAll]
  cases m.batch.data with
  | none => exact .ofResult (.ok ())
  | some entries => exact alter_onBehalfOf m.change caller _ m.place m.space

end Roster.Service

namespace Roster.Http

open Service Text

/-! ### Who is admitted -/

/-- What makes a caller known: the header holds the caller's token, blanks aside, behind the word
`Bearer`, and the realm accepts the token for a subject that spells the caller's identity. -/
structure Setting.Admits (setting : Setting) (request : Request) (caller : Caller) : Prop where
  /-- The token is in the header. -/
  bearer : ∃ value rest, request.header? "authorization" = some value ∧
    trim value = "Bearer ".toList ++ rest ∧ trim rest = caller.token.toList
  /-- There is a token. -/
  token_ne : caller.token ≠ ""
  /-- The realm accepts the token. -/
  accepted : ∃ subject, setting.realm.accept? setting.now caller.token = some subject ∧
    Uuid.parse? subject.text = some caller.identity

variable {setting : Setting} {requestId : String} {request : Request} {caller : Caller}

theorem Request.bearer_eq_ok {token : String} :
    request.bearer = .ok token ↔
      (∃ value rest, request.header? "authorization" = some value ∧
        trim value = "Bearer ".toList ++ rest ∧ trim rest = token.toList) ∧ token ≠ "" := by
  -- The header starts with the scheme exactly if it is the scheme and some rest.
  have hlead {value : List Char} : bearerLead.isPrefixOf value ↔ ∃ rest, value = bearerLead ++ rest := by
    rw [List.isPrefixOf_iff_prefix]
    exact exists_congr fun rest => eq_comm
  rw [bearer]
  cases request.header? "authorization" with
  | none => simp
  | some value =>
    dsimp only
    constructor
    · intro h
      split at h
      · rename_i hheld
        obtain ⟨rest, hrest⟩ := hlead.mp hheld.1
        obtain rfl := Except.ok.inj h
        -- Behind the scheme, the text is the rest that was taken off.
        have hdrop : (trim value).drop bearerLead.length = rest := by
          rw [hrest]
          exact List.drop_left
        rw [hdrop] at hheld ⊢
        refine ⟨⟨value, rest, rfl, hrest, String.toList_ofList.symm⟩, ?_⟩
        intro hempty
        exact hheld.2 (by simpa using congrArg String.toList hempty)
      · cases h
    · -- Conversely, a rest with a token in it passes both tests of the reader.
      rintro ⟨⟨_, rest, hvalue, hrest, htoken⟩, hne⟩
      obtain rfl := Option.some.inj hvalue
      have hdrop : (trim value).drop bearerLead.length = rest := by
        rw [hrest]
        exact List.drop_left
      have hheld : bearerLead.isPrefixOf (trim value) ∧ trim rest ≠ [] := by
        rw [htoken]
        exact ⟨hlead.mpr ⟨rest, hrest⟩, fun hempty => hne (by simpa using hempty)⟩
      rw [hdrop, if_pos hheld, htoken, String.ofList_toList]

theorem Request.caller_eq (realm : Token.Realm) (now : Nat) :
    request.caller realm now = request.bearer.bind fun token =>
      ((realm.accept now token).mapError .rejected).bind fun subject =>
        (subject.identity.mapError .rejected).bind fun identity => .ok ⟨identity, token⟩ :=
  rfl

theorem accept_eq_ok {realm : Token.Realm} {now : Nat} {token : String} {subject : Token.Subject} :
    realm.accept now token = .ok subject ↔ realm.accept? now token = some subject := by
  unfold Token.Realm.accept
  cases realm.accept? now token <;> simp

theorem accept_eq_error {realm : Token.Realm} {now : Nat} {token : String}
    {rejection : Token.Rejection} (h : realm.accept now token = .error rejection) :
    rejection = .invalidToken := by
  unfold Token.Realm.accept at h
  cases haccept : realm.accept? now token with
  | some subject => simp [haccept] at h
  | none => simpa [haccept, eq_comm] using h

theorem identity_eq_ok {subject : Token.Subject} {id : Uuid} :
    subject.identity = .ok id ↔ Uuid.parse? subject.text = some id := by
  rw [Token.Subject.identity]
  cases Uuid.parse? subject.text <;> simp

theorem identity_eq_error {subject : Token.Subject} {rejection : Token.Rejection}
    (h : subject.identity = .error rejection) : rejection = .unknownSubject := by
  unfold Token.Subject.identity at h
  cases hid : Uuid.parse? subject.text with
  | some id => simp [hid] at h
  | none => simpa [hid, eq_comm] using h

/-- A request has a caller if and only if the caller is admitted. -/
theorem Setting.admits_iff :
    setting.Admits request caller ↔
      request.caller setting.realm setting.now = .ok caller := by
  -- Each step of the reader is an equation; the conjunction of these is the structure.
  simp only [Request.caller_eq, bind_eq_ok, mapError_eq_ok, accept_eq_ok, identity_eq_ok,
    Request.bearer_eq_ok, Except.ok.injEq]
  constructor
  · rintro ⟨hbearer, hne, subject, haccept, hidentity⟩
    exact ⟨caller.token, ⟨hbearer, hne⟩, subject, haccept, caller.identity, hidentity, rfl⟩
  · rintro ⟨token, ⟨hbearer, hne⟩, subject, haccept, identity, hidentity, rfl⟩
    exact ⟨hbearer, hne, subject, haccept, hidentity⟩

theorem Request.kind_of_bearer {a : Anonymity} (h : request.bearer = .error a) :
    a.failure.kind = .unauthorized := by
  unfold bearer at h
  split at h
  · cases h
    rfl
  · dsimp only at h
    split at h
    · cases h
    · cases h
      rfl

/-- Whoever is not known is unauthorized. -/
theorem Request.kind_of_caller {realm : Token.Realm} {now : Nat} {a : Anonymity}
    (h : request.caller realm now = .error a) : a.failure.kind = .unauthorized := by
  simp only [Request.caller_eq, bind_eq_error, mapError_eq_error] at h
  -- The reader fails at the header, at the token or at its subject.
  rcases h with h | ⟨token, -, ⟨rejection, h, rfl⟩ | ⟨subject, -, ⟨rejection, h, rfl⟩ | ⟨_, -, h⟩⟩⟩
  · exact kind_of_bearer h
  · rw [accept_eq_error h]
    rfl
  · rw [identity_eq_error h]
    rfl
  · cases h

theorem exists_changeOf? {method : String} :
    (∃ change, changeOf? method = some change) ↔ method = "POST" ∨ method = "DELETE" := by
  unfold changeOf?
  split
  · simp [*]
  · split <;> simp [*]

theorem isRead_of_changeOf? {method : String} {change : Change}
    (h : changeOf? method = some change) : isRead method = false := by
  rcases exists_changeOf?.mp ⟨change, h⟩ with rfl | rfl <;> rfl

/-! ### What a request is taken for -/

/-- How a request is answered. -/
inductive Handled (setting : Setting) (requestId : String) (request : Request) : Handling → Prop where
  /-- Without a call. -/
  | settled (p : Handling) (response : Response) (h : p.value? = some response) :
      Handled setting requestId request p
  /-- With a page of members. -/
  | listing (space : String) (page : PageRequest) (path : String) (render : Listing → Response) :
      Handled setting requestId request (conclude requestId render (list space page path))
  /-- With what comes of a change of members, for a caller who is admitted. -/
  | change (m : Mutation) (caller : Caller) (hmethod : changeOf? request.method = some m.change)
      (hpath : NamesMembers request.target.path) (hcaller : setting.Admits request caller) :
      Handled setting requestId request
        (conclude requestId (fun _ => updated) (m.perform (some caller)))

theorem Handled.report (f : Failure) : Handled setting requestId request (report requestId f) :=
  .settled _ f.response rfl

/-- Behind the gate for callers, changes are for callers who are admitted. -/
theorem handled_answerCaller {resource : Resource} {answer : Change → Caller → Handling}
    (hanswer : ∀ change caller, changeOf? request.method = some change →
      setting.Admits request caller → Handled setting requestId request (answer change caller)) :
    Handled setting requestId request (answerCaller setting requestId resource request answer) := by
  unfold answerCaller
  cases hmethod : changeOf? request.method with
  | none =>
    -- A method that neither reads nor changes is refused, for known callers and for others.
    cases request.caller setting.realm setting.now with
    | ok caller => exact .settled _ (unknownMethod resource) rfl
    | error a => exact .settled _ { a.failure.response with allow := some resource.allow } rfl
  | some change =>
    cases hcaller : request.caller setting.realm setting.now with
    | ok caller => exact hanswer change caller hmethod (Setting.admits_iff.mpr hcaller)
    | error a => exact .report a.failure

theorem handled_answerSingle {change : Change} {space identity : String}
    (hmethod : changeOf? request.method = some change) (hpath : NamesMembers request.target.path)
    (hcaller : setting.Admits request caller) :
    Handled setting requestId request (answerSingle requestId change caller space identity) := by
  unfold answerSingle
  -- The parameters of the path are read before the service is asked.
  cases readParameter "space_id" space with
  | error name => exact .settled _ (unreadableParameter name) rfl
  | ok space =>
    cases readParameter "identity_id" identity with
    | error name => exact .settled _ (unreadableParameter name) rfl
    | ok identity =>
      cases change with
      | add => exact .change (.add space identity) caller hmethod hpath hcaller
      | remove => exact .change (.remove space identity) caller hmethod hpath hcaller

theorem handled_answerBatch {change : Change} {space : String}
    (hmethod : changeOf? request.method = some change) (hpath : NamesMembers request.target.path)
    (hcaller : setting.Admits request caller) :
    Handled setting requestId request (answerBatch requestId change caller space request) := by
  unfold answerBatch
  cases readParameter "space_id" space with
  | error name => exact .settled _ (unreadableParameter name) rfl
  | ok space =>
    cases Payload.read? IdentityBatch.shape [] request with
    -- A body that cannot be read is reported without a call.
    | error e => exact .report e.failure
    | ok batch =>
      cases change with
      | add => exact .change (.addAll space (batch.getD {})) caller hmethod hpath hcaller
      | remove => exact .change (.removeAll space (batch.getD {})) caller hmethod hpath hcaller

theorem handled_answerListing {space : String} :
    Handled setting requestId request (answerListing requestId space request.target) := by
  unfold answerListing
  cases readParameter "space_id" space with
  | error name => exact .settled _ (unreadableParameter name) rfl
  | ok space =>
    cases request.target.page? with
    | none => exact .settled _ unreadableQuery rfl
    | some page => exact .listing space page request.target.path _

/-- Every request is answered without a call, or with a page of members, or with a change of members
for a caller who is admitted. -/
theorem handled_answerTarget :
    Handled setting requestId request (answerTarget setting requestId request) := by
  unfold answerTarget
  -- The path says which resource is meant, and each has its own way of being answered.
  cases hpath : Resource.ofPath? request.target.path with
  | none => exact .settled _ nothingThere rfl
  | some resource =>
    cases resource with
    | collaborators space =>
      obtain ⟨hspace, htext⟩ := Resource.ofPath?_collaborators.mp hpath
      show Handled _ _ _ (if isRead request.method then _ else _)
      -- The members of a space are read without a caller, and changed with one.
      split
      · exact handled_answerListing
      · exact handled_answerCaller fun change caller hmethod hcaller =>
          handled_answerBatch hmethod ⟨space, hspace, .inl htext⟩ hcaller
    | collaborator space identity =>
      obtain ⟨⟨hspace, hidentity⟩, htext⟩ := Resource.ofPath?_collaborator.mp hpath
      exact handled_answerCaller fun change caller hmethod hcaller =>
        handled_answerSingle hmethod ⟨space, hspace, .inr ⟨identity, hidentity, htext⟩⟩ hcaller
    | health => exact .settled _ _ rfl
    | description => exact .settled _ _ rfl
    | documentation => exact .settled _ _ rfl

/-- A request to change one member is answered for the caller who is admitted. -/
theorem answerTarget_of_known {change : Change} {space identity : String}
    (hmethod : changeOf? request.method = some change)
    (hpath : Resource.ofPath? request.target.path = some (.collaborator space identity))
    (hcaller : setting.Admits request caller) :
    answerTarget setting requestId request =
      answerSingle requestId change caller space identity := by
  rw [answerTarget, hpath]
  show answerCaller setting requestId _ request _ = _
  rw [answerCaller, hmethod, Setting.admits_iff.mp hcaller]

/-- A request to change members from nobody who is admitted is answered as unauthorized. -/
theorem answerTarget_of_unknown (requestId : String) {change : Change}
    (hmethod : changeOf? request.method = some change)
    (hpath : NamesMembers request.target.path)
    (hunknown : ∀ caller, ¬setting.Admits request caller) :
    ∃ f : Failure, f.kind = .unauthorized ∧
      answerTarget setting requestId request = Http.report requestId f := by
  cases hcaller : request.caller setting.realm setting.now with
  | ok caller => exact absurd (Setting.admits_iff.mpr hcaller) (hunknown caller)
  | error a =>
    refine ⟨a.failure, Request.kind_of_caller hcaller, ?_⟩
    -- Whatever stands behind the gate, an unknown caller is reported there.
    have hgate (resource : Resource) (answer : Change → Caller → Handling) :
        answerCaller setting requestId resource request answer =
          Http.report requestId a.failure := by
      rw [answerCaller, hmethod, hcaller]
    have hread : isRead request.method = false := isRead_of_changeOf? hmethod
    obtain ⟨space, hspace, htext | ⟨identity, hidentity, htext⟩⟩ := hpath
    · rw [answerTarget, Resource.ofPath?_collaborators.mpr ⟨hspace, htext⟩]
      simp only [answerResource, hread]
      exact hgate _ _
    · rw [answerTarget, Resource.ofPath?_collaborator.mpr ⟨⟨hspace, hidentity⟩, htext⟩]
      exact hgate _ _

/-! ### Runs -/

section Runs

variable {α σ : Type} (setting requestId request) (handler : Handler interface σ) (s : σ)

theorem run_of_value? {p : Handling} {response : Response} (h : p.value? = some response) :
    (p.run handler s).value = response ∧ (p.run handler s).state = s ∧
      (p.run handler s).exchanges = [] := by
  induction p with
  -- No call is asked, so the state is the one at the start.
  | done value => exact ⟨Option.some.inj h, rfl, rfl⟩
  | note event rest ih => exact ih h
  | ask call rest => cases h

theorem run_report (f : Failure) :
    ((report requestId f).run handler s).value = f.response ∧
      ((report requestId f).run handler s).state = s ∧
      ((report requestId f).run handler s).exchanges = [] :=
  run_of_value? handler s rfl

/-- To conclude an action adds no calls to it. -/
theorem run_conclude (render : α → Response) (action : Action α) :
    let run := (conclude requestId render action).run handler s
    let inner := action.run.run handler s
    run.exchanges = inner.exchanges ∧ run.state = inner.state ∧
      run.value = match inner.value with
        | .ok value => render value
        | .error f => f.response := by
  intro run inner
  have hrun : run = _ := Program.run_bind handler action.run _ s
  rw [hrun]
  cases hvalue : inner.value with
  | ok value =>
    -- The outcome of the action decides which of the two programs follows, and neither asks
    -- anything.
    have hvalue' : (action.run.run handler s).value = .ok value := hvalue
    simp [hvalue', inner]
  | error f =>
    have hvalue' : (action.run.run handler s).value = .error f := hvalue
    simp [hvalue', inner, run_report requestId handler]

/-- To serve a request adds no calls to its answer, and keeps the status. -/
theorem run_serve :
    let run := (serve setting requestId request).run handler s
    let inner := (answerTarget setting requestId request).run handler s
    run.exchanges = inner.exchanges ∧ run.state = inner.state ∧
      run.value.status = inner.value.status := by
  intro run inner
  -- A request is served by its answer between two events; the second may change the body alone.
  let leave (response : Response) : Handling := do
    Program.log (departure response)
    return { response with
      requestId := some requestId
      body := if request.method = "HEAD" then "" else response.body }
  have hrun : run = ((answerTarget setting requestId request >>= leave).run handler s).afterEvent
      (arrival request) := rfl
  rw [hrun, Program.run_bind]
  exact ⟨List.append_nil _, rfl, rfl⟩

variable {setting requestId request}

/-- A request that is answered with what comes of an action makes the calls of the action. -/
theorem exchanges_serve {render : α → Response} {action : Action α}
    (h : answerTarget setting requestId request = conclude requestId render action) :
    ((serve setting requestId request).run handler s).exchanges =
      (action.run.run handler s).exchanges := by
  obtain ⟨hserve, -, -⟩ := run_serve setting requestId request handler s
  obtain ⟨hconclude, -, -⟩ := run_conclude requestId handler s render action
  rw [hserve, h, hconclude]

end Runs

/-! ### The gate -/

/-- The exchanges are those of a mutation on behalf of a caller who is admitted, under a method and a
path for changing members. -/
structure Authenticated (setting : Setting) (request : Request) {σ : Type}
    (handler : Handler interface σ) (s : σ) (exchanges : List Exchanged) : Prop where
  /-- The method is one for changing members. -/
  method : request.method = "POST" ∨ request.method = "DELETE"
  /-- The path names members. -/
  path : NamesMembers request.target.path
  /-- The service is asked on behalf of a caller who is admitted, and asks for leave for nobody
  else. -/
  caller : ∃ caller, setting.Admits request caller ∧
    (∃ m : Mutation, exchanges = ((m.perform (some caller)).run.run handler s).exchanges) ∧
    ∀ other space answer, (⟨.authorize other space, answer⟩ : Exchanged) ∈ exchanges →
      other = some caller

/-- The run of a request reads only, or it is the run of a mutation, and succeeds if that does. -/
theorem run_cases (setting : Setting) (requestId : String) (request : Request) {σ : Type}
    (handler : Handler interface σ) (s : σ) :
    let run := (serve setting requestId request).run handler s
    (∀ e ∈ run.exchanges, e.call.Reads) ∨
      Authenticated setting request handler s run.exchanges ∧ ∃ caller, ∃ m : Mutation,
        let inner := (m.perform caller).run.run handler s
        run.exchanges = inner.exchanges ∧ run.state = inner.state ∧
          (inner.value = .ok () → run.value.status = 200) := by
  intro run
  obtain ⟨hexchanges, hstate, hstatus⟩ := run_serve setting requestId request handler s
  have hhandled : Handled setting requestId request (answerTarget setting requestId request) :=
    handled_answerTarget
  -- The answer is only looked at for what it is taken for.
  generalize answerTarget setting requestId request = p at hhandled hexchanges hstate hstatus
  cases hhandled with
  | settled p response h =>
    left
    obtain ⟨-, -, hnone⟩ := run_of_value? handler s h
    have hrun : run.exchanges = [] := hexchanges.trans hnone
    rw [hrun]
    simp
  | listing space page path render =>
    left
    obtain ⟨hinner, -, -⟩ := run_conclude requestId handler s render (list space page path)
    have hrun : run.exchanges = ((list space page path).run.run handler s).exchanges :=
      hexchanges.trans hinner
    rw [hrun]
    -- A listing has only calls that read, against any handler.
    exact list_only space page path _ _ (Program.shows_run handler _ s)
  | change m caller hmethod hpath hcaller =>
    right
    obtain ⟨hinner, hinnerState, hinnerValue⟩ := run_conclude requestId handler s
      (fun _ => updated) (m.perform (some caller))
    have hrun : run.exchanges = ((m.perform (some caller)).run.run handler s).exchanges :=
      hexchanges.trans hinner
    -- Leave is asked for on behalf of the caller of the mutation and of nobody else.
    have hleave : ∀ other space answer, (⟨.authorize other space, answer⟩ : Exchanged) ∈ run.exchanges →
        other = some caller := by
      intro other space answer hmem
      rw [hrun] at hmem
      exact m.perform_onBehalfOf (some caller) _ _ (Program.shows_run handler _ s) _ hmem
    have hchange : request.method = "POST" ∨ request.method = "DELETE" :=
      exists_changeOf?.mp ⟨_, hmethod⟩
    refine ⟨⟨hchange, hpath, caller, hcaller, ⟨m, hrun⟩, hleave⟩, some caller, m, hrun,
      hstate.trans hinnerState, ?_⟩
    -- A success of the mutation is answered with the status 200.
    intro hok
    have hupdated : run.value.status = updated.status := by
      rw [hstatus, hinnerValue, hok]
    exact hupdated

/-- **The authentication gate.** Leave is asked for and policies are stored only for a request to
change members by a caller who is admitted, on behalf of that caller. Without such a caller the
request is answered as unauthorized, and nothing is called. Policies in memory are changed only for a
caller who is admitted, and only by requests that are answered with the status 200. -/
theorem authentication_gate (setting : Setting) (requestId : String) (request : Request) :
    (∀ (σ : Type) (handler : Handler interface σ) (s : σ),
      let run := (serve setting requestId request).run handler s
      ((∃ e ∈ run.exchanges, e.call.isAuthorize = true ∨ e.call.isStore = true) →
        Authenticated setting request handler s run.exchanges) ∧
      (request.method = "POST" ∨ request.method = "DELETE" → NamesMembers request.target.path →
        (∀ caller, ¬setting.Admits request caller) →
          run.value.status = 401 ∧ run.exchanges = [] ∧ run.state = s)) ∧
    ∀ (plan : Nat → Faults) (b : Backend),
      let run := (serve setting requestId request).run (Backend.answerUnder plan) (b, 0)
      (run.state.1.store.policies ≠ b.store.policies →
        Authenticated setting request (Backend.answerUnder plan) (b, 0) run.exchanges) ∧
      (KeepsNames b.store.policies → run.value.status ≠ 200 →
        run.state.1.store.policies = b.store.policies) := by
  constructor
  · intro σ handler s run
    refine ⟨?_, fun hmethod hpath hunknown => ?_⟩
    · rintro ⟨e, he, hkind⟩
      rcases run_cases setting requestId request handler s with hreads | ⟨hauthenticated, -⟩
      -- A run that only reads has no such call.
      · have hauthorize := Call.isAuthorize_of_reads (hreads e he)
        have hstore := Call.isStore_of_reads (hreads e he)
        simp [hauthorize, hstore] at hkind
      · exact hauthenticated
    -- Without a caller the answer is a report, whatever the body is.
    · obtain ⟨change, hchange⟩ := exists_changeOf?.mpr hmethod
      obtain ⟨f, hkind, hreport⟩ := answerTarget_of_unknown requestId hchange hpath hunknown
      obtain ⟨hexchanges, hstate, hstatus⟩ := run_serve setting requestId request handler s
      obtain ⟨hvalue, hsame, hnone⟩ := run_report requestId handler s f
      rw [hreport] at hexchanges hstate hstatus
      have hunauthorized : f.response.status = 401 := congrArg FailureKind.status hkind
      refine ⟨?_, hexchanges.trans hnone, hstate.trans hsame⟩
      rw [hstatus, hvalue, hunauthorized]
  · intro plan b run
    -- Against a backend, a call that is no store leaves the policies.
    have hserves := Backend.serves_answerUnder plan
    rcases run_cases setting requestId request (Backend.answerUnder plan) (b, 0) with
      hreads | ⟨hauthenticated, caller, m, -, hstate, hstatus⟩
    · have hstores : ∀ e ∈ run.exchanges, e.call.isStore = false :=
        fun e he => Call.isStore_of_reads (hreads e he)
      have hsame : run.state.1.store.policies = b.store.policies :=
        (hserves.credible (answers_run _ _ (b, 0)) hstores).2.1
      exact ⟨fun hne => absurd hsame hne, fun _ _ => hsame⟩
    -- Another status than 200 is that of a mutation that fails.
    · refine ⟨fun _ => hauthenticated, fun hnames hne => ?_⟩
      have hlast : run.state = ((m.perform caller).run.run (Backend.answerUnder plan) (b, 0)).state :=
        hstate
      cases hvalue : ((m.perform caller).run.run (Backend.answerUnder plan) (b, 0)).value with
      | ok _ => exact absurd (hstatus hvalue) hne
      | error f =>
        rw [hlast]
        exact m.policies_of_error hserves hnames hvalue

/-- The caller whom the token of a platform is for. -/
def Caller.platform : Caller where
  identity := (Uuid.parse? "ca11e200-0000-4000-8000-00000000ca11").getD (.uniform 0)
  token := String.ofList Token.Realm.platformToken

/-- A request of the caller to add a guest. -/
def Request.platform : Request where
  target := { path := "/v1/collaborators/" ++ (Uuid.uniform 0).text ++ "/" ++ (Uuid.uniform 2).text }
  headers := [⟨"Authorization",
    (bearerLead ++ Token.Realm.platformToken).map fun c => UInt8.ofNat c.toNat⟩]

theorem admits_platform : Setting.Admits ⟨Token.Realm.platform, 0⟩ Request.platform Caller.platform where
  -- The header holds the scheme and the token, with a blank in between.
  bearer := by
    refine ⟨bearerLead ++ Token.Realm.platformToken, Token.Realm.platformToken, ?_, ?_, ?_⟩
    · decide +kernel
    · decide +kernel
    · show _ = (String.ofList _).toList
      rw [String.toList_ofList]
      decide +kernel
  token_ne h := by
    have hempty : (String.ofList Token.Realm.platformToken).toList = [] := congrArg String.toList h
    rw [String.toList_ofList] at hempty
    exact List.cons_ne_nil _ _ hempty
  accepted := ⟨_, Token.Realm.accept?_platformToken, by decide +kernel⟩

/-- The request asks for leave, on behalf of its caller. -/
theorem authenticated_platform :
    let setting : Setting := ⟨Token.Realm.platform, 0⟩
    let run := (serve setting "" Request.platform).run Backend.answer Backend.sample
    (∃ e ∈ run.exchanges, e.call.isAuthorize = true ∨ e.call.isStore = true) ∧
      Authenticated setting Request.platform Backend.answer Backend.sample run.exchanges := by
  intro setting
  let m : Mutation := .add (Uuid.uniform 0).text (Uuid.uniform 2).text
  -- What is to be decided by evaluation is kept to closed terms: path, parameters and the calls
  -- made.
  have hpath : Resource.ofPath? Request.platform.target.path =
      some (.collaborator (Uuid.uniform 0).text (Uuid.uniform 2).text) := by
    decide +kernel
  have hspace : readParameter "space_id" (Uuid.uniform 0).text = .ok (Uuid.uniform 0).text := by
    decide +kernel
  have hidentity : readParameter "identity_id" (Uuid.uniform 2).text =
      .ok (Uuid.uniform 2).text := by
    decide +kernel
  have htarget : answerTarget setting "" Request.platform =
      conclude "" (fun _ => updated) (m.perform (some Caller.platform)) := by
    have hmethod : changeOf? Request.platform.method = some .add := rfl
    rw [answerTarget_of_known hmethod hpath admits_platform, answerSingle, hspace, hidentity]
    rfl
  have hexchanges := exchanges_serve Backend.answer Backend.sample htarget
  have hany : (((m.perform (some Caller.platform)).run.run Backend.answer
      Backend.sample).exchanges.any fun e => e.call.isAuthorize) = true := by
    decide +kernel
  have hasks : ∃ e ∈ ((serve setting "" Request.platform).run Backend.answer
      Backend.sample).exchanges, e.call.isAuthorize = true ∨ e.call.isStore = true := by
    obtain ⟨e, he, hleave⟩ := List.any_eq_true.mp hany
    rw [hexchanges]
    exact ⟨e, he, .inl hleave⟩
  exact ⟨hasks, ((authentication_gate setting "" Request.platform).1 _ _ _).1 hasks⟩

end Roster.Http
