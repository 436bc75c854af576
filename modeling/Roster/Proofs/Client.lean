import Roster.PolicyServer.Client
import Roster.Proofs.Exchanges
import Roster.Proofs.PolicyDocument

/-!
# What the client of the policy server sends

Each of the service's calls about policies sends at most two requests, and whether it goes on after
a response is decided by what can be read from that. The four requests and the readings of their
responses have names here, and for each call an inductive predicate says what is sent and when the
call succeeds (`Asking`, `Fetching`, `Storing`). Looking something up sends nothing.

A request that is sent is given with its response, which is nothing if the server cannot be reached.
-/

namespace Roster.PolicyServer

open Attempt Text

variable {α β : Type} {s : RealmSettings} {exchanges : List (Exchange wire)}

/-! ### Requests -/

/-- The request for a token that policies are fetched and stored with. -/
def tokenRequest (s : RealmSettings) : Request where
  method := "POST"
  url := s.tokenEndpoint
  content := .form [("grant_type", "client_credentials"), ("client_id", s.clientId),
    ("client_secret", s.clientSecret)]

/-- The request for a policy. -/
def fetchRequest (s : RealmSettings) (policyId token : String) : Request where
  method := "GET"
  url := s.policyEndpoint policyId
  bearer := some token

/-- The request to store a policy. -/
def storeRequest (s : RealmSettings) (policyId token : String) (policy : Policy) : Request where
  method := "PUT"
  url := s.policyEndpoint policyId
  bearer := some token
  content := .json policy.toJson

/-- The request for an entitlement of a caller to a space. -/
def entitlementRequest (s : RealmSettings) (caller : Caller) (space : Uuid) : Request where
  method := "POST"
  url := s.entitlementEndpoint
  bearer := some caller.token
  content := .json
    (.object [("permissions", .array [.object [("resource_set_name", .string space.text)]])])

/-- The policy that a request carries. -/
def Request.policy? (r : Request) : Option Policy :=
  match r.content with
  | .json body => Policy.ofJson? body
  | _ => none

/-! ### Responses -/

/-- What is read from a response with the status that it should have. -/
def usable? (read : Bytes → Option α) (response : Option Response) : Option α :=
  response.bind fun r => if r.status = 200 then read r.body else none

/-- The token that a response gives. -/
def tokenIn? : Option Response → Option String :=
  usable? (textIn? "access_token")

/-- The policy that a response gives. -/
def policyIn? : Option Response → Option Policy :=
  usable? Policy.ofBytes?

/-- Whoever receives the request to store a policy that was received, with another member list, reads
that policy in it. -/
theorem policy?_storeRequest (s : RealmSettings) (policyId token : String)
    {response : Option Response} {policy : Policy} (h : policyIn? response = some policy)
    (users : String) :
    (storeRequest s policyId token (policy.withUsers users)).policy? =
      some (policy.withUsers users) := by
  obtain ⟨r, -, hread⟩ := Option.bind_eq_some_iff.mp h
  -- A response that gives a policy has a body that is read as one.
  have hbody : Policy.ofBytes? r.body = some policy := by
    split_ifs at hread
    exact hread
  obtain ⟨j, -, hpolicy⟩ := Option.bind_eq_some_iff.mp hbody
  -- A policy that was read is written as it stands, the other members of the document included.
  exact Policy.ofJson?_toJson ((Policy.sound_of_ofJson? hpolicy).withUsers users)

/-- Whether a response gives an entitlement to a space. -/
def entitles (space : Uuid) (response : Option Response) : Bool :=
  (usable? (fun body => (textIn? "rpt" body).bind Token.Grant.ofToken?) response).any
    (·.covers space.text)

/-- Whether a response says that a policy was stored. -/
def isStored (response : Option Response) : Bool :=
  response.any fun r => Http.Status.isSuccess r.status

/-! ### Steps as consultations -/

/-- What becomes of a response that something is to be read from. -/
def receive (purpose : Purpose) (reading : Reading) (read : Bytes → Option α) :
    Option Response → Result α
  | none => .error (Trouble.unreachable purpose).failure
  | some r =>
    if r.status = 200 then
      match read r.body with
      | some value => .ok value
      | none => .error (Trouble.unreadable reading).failure
    else .error (Trouble.refused purpose r.status r.body).failure

/-- What becomes of a response to a request for an entitlement. -/
def verdict (space : Uuid) : Option Response → Result Bool
  | none => .error (Trouble.unreachable .entitlement).failure
  | some r =>
    if r.status = 200 then
      match textIn? "rpt" r.body with
      | some token =>
        match Token.Grant.ofToken? token with
        | some grant => .ok (grant.covers space.text)
        | none => .error Trouble.unreadableGrant.failure
      | none => .error (Trouble.unreadable .entitlement).failure
    else if r.status = 403 then .ok false
    else .error (Trouble.refused .entitlement r.status r.body).failure

/-- What becomes of a response to a request to store a policy. -/
def receipt (policyId : String) : Option Response → Result Unit
  | none => .error (Trouble.unreachable (.store policyId)).failure
  | some r =>
    if Http.Status.isSuccess r.status then .ok ()
    else .error (Trouble.refused (.store policyId) r.status r.body).failure

theorem receive_eq_ok (purpose : Purpose) (reading : Reading) {read : Bytes → Option α}
    {response : Option Response} {value : α} :
    receive purpose reading read response = .ok value ↔ usable? read response = some value := by
  -- Without a response there is nothing to read, and only status 200 lets the body be read.
  rcases response with _ | r
  · simp [receive, usable?]
  · by_cases hstatus : r.status = 200
    · cases hread : read r.body <;> simp [receive, usable?, hstatus, hread]
    · simp [receive, usable?, hstatus]

theorem verdict_eq_ok_true {space : Uuid} {response : Option Response} :
    verdict space response = .ok true ↔ entitles space response = true := by
  -- A verdict needs status 200, a token in the body, and a grant in the token, in this order.
  rcases response with _ | r
  · simp [verdict, entitles, usable?]
  · by_cases hstatus : r.status = 200
    · cases htoken : textIn? "rpt" r.body with
      | none => simp [verdict, entitles, usable?, hstatus, htoken]
      | some token =>
        cases hgrant : Token.Grant.ofToken? token <;>
          simp [verdict, entitles, usable?, hstatus, htoken, hgrant]
    · by_cases hdenied : r.status = 403 <;> simp [verdict, entitles, usable?, hstatus, hdenied]

theorem receipt_eq_ok (policyId : String) {response : Option Response} :
    receipt policyId response = .ok () ↔ isStored response = true := by
  rcases response with _ | r
  · simp [receipt, isStored]
  · cases hstatus : Http.Status.isSuccess r.status <;> simp [receipt, isStored, hstatus]

/-- What is done with the response to a request. -/
theorem respond_bind (purpose : Purpose) (request : Request) (next : Response → Action α) :
    (respond purpose request >>= next) =
      Attempt.call (I := wire) (.send request) >>= fun response =>
        match response with
        | some r => next r
        | none => ofResult (.error (Trouble.unreachable purpose).failure) := by
  rw [respond, bind_assoc]
  refine congrArg (Attempt.call (I := wire) (.send request) >>= ·) (funext fun response => ?_)
  cases response <;> rfl

theorem protectionToken_eq (s : RealmSettings) :
    protectionToken s = consult (I := wire) (.send (tokenRequest s)) fun response =>
      (receive .token .token (textIn? "access_token") response).map ProtectionToken.mk := by
  rw [protectionToken, respond_bind]
  refine congrArg (Attempt.call (I := wire) _ >>= ·) (funext fun response => ?_)
  -- The cases are those of the response: none, one with the status asked for, any other one.
  rcases response with _ | r
  · rfl
  · by_cases hstatus : r.status = 200
    · simp only [receive, hstatus, if_true]
      cases textIn? "access_token" r.body <;> rfl
    · simp only [receive, hstatus, if_false]
      rfl

theorem fetch_eq (s : RealmSettings) (policyId : String) :
    fetch s policyId =
      protectionToken s >>= fun token =>
        consult (I := wire) (.send (fetchRequest s policyId token.text))
            (receive (.fetch policyId) .policy Policy.ofBytes?) >>= fun policy =>
          Attempt.log
            { level := .debug, message := "Fetched policy"
              fields := [("policy_id", policyId), ("users", policy.config.users)] } >>= fun _ =>
            pure (policy, token) := by
  rw [fetch]
  refine congrArg (protectionToken s >>= ·) (funext fun token => ?_)
  rw [respond_bind]
  refine Eq.trans (congrArg (Attempt.call (I := wire) _ >>= ·) (funext fun response => ?_))
    (consult_bind (I := wire) _ _ _).symm
  -- The same three cases; the event noted behind a policy asks nothing.
  rcases response with _ | r
  · rfl
  · by_cases hstatus : r.status = 200
    · simp only [receive, hstatus, if_true]
      cases Policy.ofBytes? r.body <;> rfl
    · simp only [receive, hstatus, if_false]
      rfl

theorem authorize_eq (s : RealmSettings) (caller : Caller) (space : Uuid) :
    authorize s (some caller) space =
      consult (I := wire) (.send (entitlementRequest s caller space)) (verdict space) := by
  rw [authorize, respond_bind]
  refine congrArg (Attempt.call (I := wire) _ >>= ·) (funext fun response => ?_)
  rcases response with _ | r
  · rfl
  · -- An entitlement is in a token inside the body, so a body that gives one is read twice.
    by_cases hstatus : r.status = 200
    · simp only [verdict, hstatus, if_true]
      cases textIn? "rpt" r.body with
      | none => rfl
      | some token =>
        simp only [readable, pure_bind]
        cases Token.Grant.ofToken? token <;> rfl
    · -- Status 403 is an answer, and no failure.
      by_cases hdenied : r.status = 403
      · simp only [verdict, hdenied, Nat.reduceEqDiff, if_false, if_true]
        rfl
      · simp only [verdict, hstatus, hdenied, if_false]
        rfl

theorem store_eq (s : RealmSettings) {policy : Policy} {policyId : String}
    (hid : policy.id = some policyId) (token : ProtectionToken) :
    store s policy token = guarded
      (consult (I := wire) (.send (storeRequest s policyId token.text policy)) (receipt policyId) >>=
        fun _ => Attempt.log
          { level := .debug, message := "Updated policy", fields := [("policy_id", policyId)] }) := by
  rw [store, hid]
  refine congrArg guarded ?_
  rw [respond_bind]
  refine Eq.trans (congrArg (Attempt.call (I := wire) _ >>= ·) (funext fun response => ?_))
    (consult_bind (I := wire) _ _ _).symm
  rcases response with _ | r
  · rfl
  · cases hstatus : Http.Status.isSuccess r.status <;> simp only [receipt, hstatus] <;> rfl

/-! ### What is sent -/

/-- A request that is sent, and the response if there is one. -/
abbrev Sent := Request × Option Response

/-- The requests that are sent, in order, each with its response. -/
def sent (exchanges : List (Exchange wire)) : List Sent :=
  exchanges.filterMap fun
    | ⟨.send request, response⟩ => some (request, response)
    | _ => none

theorem sent_append (before behind : List (Exchange wire)) :
    sent (before ++ behind) = sent before ++ sent behind :=
  List.filterMap_append

/-- Consulting the server sends one request. -/
theorem sent_of_consult {request : Request} {read : Option Response → Result α} {result : Result α}
    (h : Attempt.Shows (consult (I := wire) (.send request) read) exchanges result) :
    ∃ response, sent exchanges = [(request, response)] ∧ result = read response := by
  obtain ⟨response, rfl, rfl⟩ := shows_consult.mp h
  exact ⟨response, rfl, rfl⟩

/-- Consulting the server sends one request, whatever is made of what it was consulted about. -/
theorem sent_of_consult_bind {request : Request} {read : Option Response → Result α}
    {next : α → Action β} {result : Result β}
    (h : Attempt.Shows (consult (I := wire) (.send request) read >>= next) exchanges result)
    (make : α → β)
    (hnext : ∀ value rest last, (next value).Shows rest last → rest = [] ∧ last = .ok (make value)) :
    ∃ response, sent exchanges = [(request, response)] ∧ result = (read response).map make := by
  rcases shows_bind.mp h with ⟨f, hf, rfl⟩ | ⟨value, before, behind, rfl, hvalue, hrest⟩
  · obtain ⟨response, hsent, hread⟩ := sent_of_consult hf
    exact ⟨response, hsent, by rw [← hread]; rfl⟩
  · obtain ⟨response, hsent, hread⟩ := sent_of_consult hvalue
    obtain ⟨rfl, rfl⟩ := hnext value behind result hrest
    exact ⟨response, by rw [List.append_nil, hsent], by rw [← hread]; rfl⟩

/-- An action that is not taken if the request has been given up: it fails and sends nothing, or it
sends what the action sends. -/
theorem sent_of_guarded {x : Action α} {result : Result α}
    (h : Attempt.Shows (guarded x) exchanges result) :
    (sent exchanges = [] ∧ ∃ f, result = .error f) ∨
      ∃ behind, sent exchanges = sent behind ∧ x.Shows behind result := by
  rw [guarded] at h
  rcases shows_bind.mp h with ⟨f, hf, rfl⟩ | ⟨cancelled, before, behind, rfl, hasked, hrest⟩
  · -- Asking whether the request was given up cannot fail.
    obtain ⟨_, -, hnone⟩ := shows_call.mp hf
    cases hnone
  · obtain ⟨_, rfl, hsame⟩ := shows_call.mp hasked
    cases cancelled with
    | true =>
      -- It was given up, so the action was not taken.
      obtain ⟨rfl, rfl⟩ := hrest
      exact Or.inl ⟨rfl, _, rfl⟩
    | false => exact Or.inr ⟨behind, rfl, hrest⟩

/-- What asking whether a caller may act on a space sends. -/
inductive Asking (s : RealmSettings) (caller : Option Caller) (space : Uuid) :
    List Sent → Result Bool → Prop where
  /-- Nothing is sent. -/
  | silent (f : Failure) : Asking s caller space [] (.error f)
  /-- An entitlement is asked for, and the caller may act on the space if there is one. -/
  | asked (c : Caller) (response : Option Response) (answer : Result Bool) (hcaller : caller = some c)
      (h : answer = .ok true ↔ entitles space response = true) :
      Asking s caller space [(entitlementRequest s c space, response)] answer

/-- What fetching a policy sends. -/
inductive Fetching (s : RealmSettings) (policyId : String) :
    List Sent → Result (Policy × ProtectionToken) → Prop where
  /-- Nothing is sent. -/
  | silent (f : Failure) : Fetching s policyId [] (.error f)
  /-- No token is given. -/
  | refused (response : Option Response) (f : Failure) :
      Fetching s policyId [(tokenRequest s, response)] (.error f)
  /-- The policy is asked for with the token. -/
  | asked (first second : Option Response) (token : String)
      (answer : Result (Policy × ProtectionToken)) (htoken : tokenIn? first = some token)
      (h : ∀ fetched, answer = .ok fetched ↔
        policyIn? second = some fetched.1 ∧ fetched.2 = ⟨token⟩) :
      Fetching s policyId
        [(tokenRequest s, first), (fetchRequest s policyId token, second)] answer

/-- What storing a policy sends. -/
inductive Storing (s : RealmSettings) (policy : Policy) (token : ProtectionToken) :
    List Sent → Result Unit → Prop where
  /-- Nothing is sent. -/
  | silent (f : Failure) : Storing s policy token [] (.error f)
  /-- The policy is sent to where it came from. -/
  | asked (policyId : String) (response : Option Response) (answer : Result Unit)
      (hid : policy.id = some policyId) (h : answer = .ok () ↔ isStored response = true) :
      Storing s policy token [(storeRequest s policyId token.text policy, response)] answer

/-- A caller who may act on a space has asked for an entitlement, and got one. -/
theorem Asking.of_ok_true {caller : Option Caller} {space : Uuid} {requests : List Sent}
    (h : Asking s caller space requests (.ok true)) :
    ∃ c response, caller = some c ∧ entitles space response = true ∧
      requests = [(entitlementRequest s c space, response)] := by
  cases h with
  | asked c response _ hcaller hanswer => exact ⟨c, response, hcaller, hanswer.mp rfl, rfl⟩

/-- A policy that is fetched has been asked for with the token that comes with it. -/
theorem Fetching.of_ok {policyId : String} {requests : List Sent} {policy : Policy}
    {token : ProtectionToken} (h : Fetching s policyId requests (.ok (policy, token))) :
    ∃ first second, tokenIn? first = some token.text ∧ policyIn? second = some policy ∧
      requests = [(tokenRequest s, first), (fetchRequest s policyId token.text, second)] := by
  cases h with
  | asked first second text _ htoken hanswer =>
    obtain ⟨hpolicy, rfl⟩ := (hanswer _).mp rfl
    exact ⟨first, second, htoken, hpolicy, rfl⟩

theorem asking_of_shows {caller : Option Caller} {space : Uuid} {result : Result Bool}
    (h : (answer s (.authorize caller space)).Shows exchanges result) :
    Asking s caller space (sent exchanges) result := by
  rcases sent_of_guarded (x := authorize s caller space) h with
    ⟨hsent, f, rfl⟩ | ⟨behind, hsent, hasked⟩
  · -- The request was given up before.
    rw [hsent]
    exact .silent f
  rw [hsent]
  cases caller with
  | none =>
    -- Without a caller nothing is asked.
    obtain ⟨rfl, rfl⟩ := hasked
    exact .silent _
  | some c =>
    rw [authorize_eq] at hasked
    obtain ⟨response, hsent, rfl⟩ := sent_of_consult hasked
    rw [hsent]
    exact .asked c response _ rfl verdict_eq_ok_true

theorem fetching_of_shows {policyId : String} {result : Result (Policy × ProtectionToken)}
    (h : (answer s (.fetch policyId)).Shows exchanges result) :
    Fetching s policyId (sent exchanges) result := by
  rcases sent_of_guarded (x := fetch s policyId) h with ⟨hsent, f, rfl⟩ | ⟨behind, hsent, hfetch⟩
  · -- The request was given up before.
    rw [hsent]
    exact .silent f
  rw [hsent]
  rw [fetch_eq, protectionToken_eq] at hfetch
  rcases shows_bind.mp hfetch with ⟨f, hf, rfl⟩ | ⟨token, before, behind, rfl, htoken, hrest⟩
  · -- Without a token there is no fetch request.
    obtain ⟨response, hsent, -⟩ := sent_of_consult hf
    rw [hsent]
    exact .refused response f
  obtain ⟨first, hfirst, hread⟩ := sent_of_consult htoken
  -- The token that is sent along is the text in the response to the token request.
  obtain ⟨text, htext, rfl⟩ : ∃ text, tokenIn? first = some text ∧ token = ⟨text⟩ := by
    cases hreceived : receive .token .token (textIn? "access_token") first with
    | error f =>
      rw [hreceived] at hread
      cases hread
    | ok text =>
      rw [hreceived] at hread
      exact ⟨text, (receive_eq_ok _ _).mp hreceived, Except.ok.inj hread⟩
  -- What comes behind the fetch request is an event, so the policy is in its response.
  obtain ⟨second, hsecond, hresult⟩ :=
    sent_of_consult_bind hrest (fun policy => (policy, ⟨text⟩)) fun _ _ _ hlogged => hlogged
  rw [sent_append, hfirst, hsecond]
  refine .asked first second text result htext fun fetched => ?_
  -- Both sides say that the response is of use and gives the policy.
  rw [hresult, policyIn?, ← receive_eq_ok (.fetch policyId) .policy]
  obtain ⟨policy, token⟩ := fetched
  cases receive (.fetch policyId) .policy Policy.ofBytes? second with
  | error f => simp [Except.map]
  | ok other => simp [Except.map, eq_comm]

theorem storing_of_shows {policy : Policy} {token : ProtectionToken} {result : Result Unit}
    (h : (answer s (.store policy token)).Shows exchanges result) :
    Storing s policy token (sent exchanges) result := by
  rcases sent_of_guarded (x := store s policy token) h with ⟨hsent, f, rfl⟩ | ⟨behind, hsent, hstore⟩
  · rw [hsent]
    exact .silent f
  rw [hsent]
  cases hid : policy.id with
  | none =>
    -- Without an id there is no place to store the policy at.
    rw [store, hid] at hstore
    obtain ⟨rfl, rfl⟩ := hstore
    exact .silent _
  | some policyId =>
    rw [store_eq s hid] at hstore
    -- Before the request is sent, it is asked once more whether it was given up.
    rcases sent_of_guarded hstore with ⟨hsent, f, rfl⟩ | ⟨rest, hsent, hrest⟩
    · rw [hsent]
      exact .silent f
    obtain ⟨response, hresponse, hresult⟩ :=
      sent_of_consult_bind hrest (fun _ => ()) fun _ _ _ hlogged => hlogged
    rw [hsent, hresponse]
    refine .asked policyId response result hid ?_
    -- The receipt decides, and it is the one for the response.
    rw [hresult, ← receipt_eq_ok policyId]
    cases receipt policyId response <;> simp [Except.map]

end Roster.PolicyServer
