import Roster.PolicyServer.Script
import Roster.Proofs.Backend
import Roster.Proofs.Client
import Roster.Proofs.Grant

/-!
# Who may act on a space

The policy server is asked whether a caller may act on a space, and what becomes of the answer is
decided by the response alone. It allows the caller if it is a success with a token that conveys a
permission on the space (`Response.Brings`). It refuses the caller if the server forbids it, or if
the token conveys other permissions only, or none at all. Everything else is an error of the server:
any other status, successes among them, a body that is no JSON or has no text for a token, and a
token that cannot be read. `entitlement_decides` says so of every server, and of every state that it
may be in.
-/

namespace Roster.PolicyServer

open Json

variable {σ α : Type}

/-! ### Responses -/

/-- A success whose body is JSON with a text for a token that conveys permissions. -/
structure Response.Brings (permissions : List Token.Permission) (r : Response) : Prop where
  /-- It is the one success that counts. -/
  status : r.status = 200
  /-- It has a token. -/
  body : ∃ (d : Document) (token : String), d.Spans r.body ∧ d.IsRecord ["rpt"] ∧
    d.member? ["rpt"] "rpt" = some (.text (.ok token)) ∧ Token.Conveys permissions token

theorem textIn?_eq_some {name : String} {body : Text.Bytes} {text : String} :
    textIn? name body = some text ↔ ∃ d : Document, d.Spans body ∧ d.IsRecord [name] ∧
      d.member? [name] name = some (.text (.ok text)) := by
  simp only [textIn?, toOption_eq_some, Shape.read_eq_ok, Shape.Record.required_eq_ok,
    Shape.text_eq_ok, exists_eq_right]

theorem brings_iff {permissions : List Token.Permission} {r : Response} :
    r.Brings permissions ↔ r.status = 200 ∧ ∃ token, textIn? "rpt" r.body = some token ∧
      Token.Grant.ofToken? token = some ⟨permissions⟩ := by
  simp only [textIn?_eq_some, Token.Grant.ofToken?_eq_some]
  constructor
  · -- Read by the iffs of the two layers, the structure and the equations have the same content.
    rintro ⟨hstatus, d, token, hspans, hrecord, htoken, hconveys⟩
    exact ⟨hstatus, token, ⟨d, hspans, hrecord, htoken⟩, hconveys⟩
  · rintro ⟨hstatus, token, ⟨d, hspans, hrecord, htoken⟩, hconveys⟩
    exact ⟨hstatus, d, token, hspans, hrecord, htoken, hconveys⟩

/-- What becomes of a response: the permissions that it brings decide, and so does a server that
forbids. -/
theorem verdict_eq_ok {space : Uuid} {response : Option Response} {allowed : Bool} :
    verdict space response = .ok allowed ↔ ∃ r, response = some r ∧
      ((∃ permissions, r.Brings permissions ∧
          (allowed = true ↔ ∃ p ∈ permissions, p.IsOn space.text)) ∨
        r.status = 403 ∧ allowed = false) := by
  simp only [brings_iff]
  -- One case for each place where the verdict can be decided: no response, its status, its body,
  -- its token.
  rcases response with _ | r
  · simp [verdict]
  simp only [verdict, Option.some.injEq, exists_eq_left']
  by_cases hstatus : r.status = 200
  · cases htoken : textIn? "rpt" r.body with
    | none => simp [hstatus]
    | some token =>
      cases hgrant : Token.Grant.ofToken? token with
      | none => simp [hstatus, hgrant]
      | some grant =>
        obtain ⟨permissions⟩ := grant
        -- The grant covers the space exactly if one of its permissions is on it.
        have hcovers : (Token.Grant.covers space.text ⟨permissions⟩ = allowed) ↔
            (allowed = true ↔ ∃ p ∈ permissions, p.IsOn space.text) := by
          rw [Bool.eq_iff_iff, Token.Grant.covers_iff]
          exact iff_comm
        simp [hstatus, hgrant, hcovers]
  · by_cases hforbidden : r.status = 403 <;> simp [hstatus, hforbidden]

/-- A response that decides nothing is an error of the server. -/
theorem kind_of_verdict {space : Uuid} {response : Option Response} {f : Failure}
    (h : verdict space response = .error f) : f.kind = .serverError := by
  rcases response with _ | r
  · cases h
    rfl
  simp only [verdict] at h
  -- The server allows, forbids, or does neither; only the last of them is an error here.
  split_ifs at h with hstatus hforbidden
  · split at h
    · split at h
      · cases h
      · cases h
        rfl
    · cases h
      rfl
  · cases h
    rfl

/-! ### Asking -/

/-- Whether a handler says that the request that is worked for has been given up. -/
def isGivenUp (server : Handler wire σ) (state : σ) : Bool :=
  (server .isCancelled state).1

/-- The response of a handler to a request, once it has been asked whether the request that is
worked for has been given up. -/
def responseTo (server : Handler wire σ) (state : σ) (request : Request) : Option Response :=
  (server (.send request) (server .isCancelled state).2).1

theorem run_guarded (server : Handler wire σ) (state : σ) (x : Action α) :
    Program.run server (guarded x).run state =
      (Program.run server (if isGivenUp server state then fail .cancelled else x : Action α).run
        (server .isCancelled state).2).afterExchange
        ⟨Call.isCancelled, isGivenUp server state⟩ := rfl

/-- **The entitlement decides.** -/
theorem entitlement_decides (server : Handler wire σ) (state : σ) (s : RealmSettings)
    (caller : Option Caller) (space : Uuid) :
    let run := Program.run server (answer s (.authorize caller space)) state
    (isGivenUp server state = true →
      sent run.exchanges = [] ∧ run.value = .error Trouble.cancelled.failure) ∧
    (isGivenUp server state = false → caller = none →
      sent run.exchanges = [] ∧ ∃ f, run.value = .error f ∧ f.kind = .unauthorized) ∧
    (isGivenUp server state = false → ∀ c, caller = some c →
      let request := entitlementRequest s c space
      let response := responseTo server state request
      sent run.exchanges = [(request, response)] ∧
        (run.value = .ok true ↔ ∃ r permissions, response = some r ∧ r.Brings permissions ∧
          ∃ p ∈ permissions, p.IsOn space.text) ∧
        (run.value = .ok false ↔ ∃ r, response = some r ∧ (r.status = 403 ∨
          ∃ permissions, r.Brings permissions ∧ ∀ p ∈ permissions, ¬ p.IsOn space.text)) ∧
        ∀ f, run.value = .error f → f.kind = .serverError) := by
  intro run
  -- Whether the request has been given up is asked before the caller is looked at.
  have hrun : run = _ := run_guarded server state (authorize s caller space)
  refine ⟨fun h => ?_, fun h hnone => ?_, fun h c hc => ?_⟩
  · rw [hrun, h]
    exact ⟨rfl, rfl⟩
  · rw [hrun, h, hnone]
    exact ⟨rfl, _, rfl, rfl⟩
  · -- One exchange is behind that question, and the verdict on its response is the outcome.
    intro request response
    rw [if_neg (by rw [h]; exact Bool.false_ne_true), hc, authorize_eq] at hrun
    have hvalue : run.value = verdict space response := congrArg Run.value hrun
    have hsent : sent run.exchanges = [(request, response)] :=
      congrArg (fun r => sent r.exchanges) hrun
    refine ⟨hsent, ?_, ?_, fun f hf => kind_of_verdict (hvalue.symm.trans hf)⟩
    · -- To be allowed, a permission on the space is needed, since to be forbidden is an answer of
      -- no.
      rw [hvalue, verdict_eq_ok]
      simp
    · rw [hvalue, verdict_eq_ok]
      simp [or_comm]

/-- A response whose token is for one space. The token names the algorithm `ES256`, expired in 1970
and has no signature worth the name. -/
def Response.forOneSpace : Response where
  status := 200
  body := Text.utf8 <| "\x7b\"rpt\":\"eyJhbGciOiJFUzI1NiJ9." ++
    "eyJleHAiOjEsImF1dGhvcml6YXRpb24iOnsicGVybWlzc2lvbnMiOlt7InJlc291cmNlX3NldF9uYW1l" ++
    "IjoiMDAwMDAwMDAtMDAwMC0wMDAwLTAwMDAtMDAwMDAwMDAwMDAwIn1dfX0.eA\"\x7d"

/-- A server that answers with it allows the caller that space, and no other one. -/
theorem one_space_allowed :
    let permission : Token.Permission := ⟨some (Uuid.uniform 0).text, none⟩
    let run (space : Uuid) := Program.run Script.answer
      (answer {} (.authorize (some ⟨.uniform 1, "t"⟩) space)) ⟨some [.forOneSpace], false, {}⟩
    Response.forOneSpace.Brings [permission] ∧ (run (.uniform 0)).value = .ok true ∧
      (run (.uniform 2)).value = .ok false := by
  intro permission run
  -- The token is read by evaluation; what it conveys follows by the iff of its reader.
  have hread : ((textIn? "rpt" Response.forOneSpace.body).bind Token.Grant.ofToken?) =
      some ⟨[permission]⟩ := by
    decide +kernel
  have hbrings : Response.forOneSpace.Brings [permission] :=
    brings_iff.mpr ⟨rfl, Option.bind_eq_some_iff.mp hread⟩
  -- The permission has the name of another space, and no identifier at all.
  have hother : ¬ permission.IsOn (Uuid.uniform 2).text := by
    rintro (hname | ⟨⟨⟩⟩)
    exact absurd hname (by decide +kernel)
  -- The theorem for both spaces at once; the server gives the same response to either request.
  have hasked (space : Uuid) := (entitlement_decides Script.answer
    ⟨some [.forOneSpace], false, {}⟩ {} (some ⟨.uniform 1, "t"⟩) space).2.2 rfl _ rfl
  refine ⟨hbrings, (hasked _).2.1.mpr ⟨_, _, rfl, hbrings, permission, ?_⟩,
    (hasked _).2.2.1.mpr ⟨_, rfl, .inr ⟨_, hbrings, ?_⟩⟩⟩
  · exact ⟨List.mem_singleton_self _, .inl rfl⟩
  · exact List.forall_mem_singleton.mpr hother

end Roster.PolicyServer
