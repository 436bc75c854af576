import Roster.Proofs.Policy
import Roster.Proofs.Pool
import Roster.Proofs.Request

/-!
# What changing members shows

Whatever the service is answered, a request to change members makes its calls in one order, and how
far it gets depends on the answers so far. The rows of exchanges that an action may show are written
down as inductive predicates, one constructor for each place where the action may end:

* `Update` — the exchanges from asking for leave to storing the policy;
* `Opening` — what a removal looks up before that;
* `Alteration` — the whole request.

`alteration_of_shows` is the one place where the action itself is opened up: what holds of all
requests to change members is read off these predicates.
-/

namespace Roster.Service

open Attempt

/-- An exchange of the service. -/
abbrev Exchanged := Exchange interface

variable {change : Change} {texts : List String} {exchanges : List Exchanged}

/-! ### Steps as consultations

Each step of a request makes one call and reads off its answer whether and how to go on.
-/

/-- The identifier that a text spells, or why there is none. -/
def idOf (malformed : String → Refusal) (text : String) : Result Uuid :=
  match Uuid.parse? text with
  | some id => .ok id
  | none => .error (malformed text).failure

/-- The entry that a lookup was answered with, or why there is none. -/
def entryOf {α : Type} (kind : FailureKind) (missing : Refusal) : Result (Option α) → Result α
  | .ok (some entry) => .ok entry
  | .ok none => .error missing.failure
  | .error f => .error (f.as kind)

/-- Whether a caller may go on, or why not. -/
def leaveOf : Result Bool → Result Unit
  | .ok true => .ok ()
  | .ok false => .error Refusal.outsider.failure
  | .error f => .error (f.as .unauthorized)

/-- Whether one of the texts names the owner of a space. -/
def namesOwner (found : Space) (texts : List String) : Bool :=
  texts.any fun text => Uuid.parse? text = some found.ownerId

/-- Whether a removal may go on, or why not. -/
def removableOf (texts : List String) (answer : Result (Option Space)) : Result Unit :=
  (entryOf .notFound .unknownSpace answer).bind fun found =>
    if namesOwner found texts then .error Refusal.ownerRemoved.failure else .ok ()

@[simp] theorem idOf_eq_ok {malformed : String → Refusal} {text : String} {id : Uuid} :
    idOf malformed text = .ok id ↔ Uuid.parse? text = some id := by
  rw [idOf]
  cases Uuid.parse? text <;> simp

theorem idOf_eq_error {malformed : String → Refusal} {text : String} {f : Failure} :
    idOf malformed text = .error f ↔ Uuid.parse? text = none ∧ f = (malformed text).failure := by
  rw [idOf]
  cases Uuid.parse? text <;> simp [eq_comm]

@[simp] theorem entryOf_eq_ok {α : Type} {kind : FailureKind} {missing : Refusal}
    {answer : Result (Option α)} {entry : α} :
    entryOf kind missing answer = .ok entry ↔ answer = .ok (some entry) := by
  rcases answer with f | _ | found <;> simp [entryOf]

@[simp] theorem leaveOf_eq_ok {answer : Result Bool} :
    leaveOf answer = .ok () ↔ answer = .ok true := by
  rcases answer with f | _ | _ <;> simp [leaveOf]

theorem removableOf_eq_ok {answer : Result (Option Space)} :
    removableOf texts answer = .ok () ↔
      ∃ found, answer = .ok (some found) ∧ namesOwner found texts = false := by
  rcases answer with f | _ | found
  · simp [removableOf, entryOf, Except.bind]
  · simp [removableOf, entryOf, Except.bind]
  · cases h : namesOwner found texts <;> simp [removableOf, entryOf, Except.bind, h]

theorem readId_eq (malformed : String → Refusal) (text : String) :
    readId malformed text = ofResult (idOf malformed text) := by
  rw [readId, idOf]
  cases Uuid.parse? text <;> rfl

theorem entry_refuse (kind : FailureKind) (lookup : Lookup) (missing : Refusal) :
    entry kind lookup (refuse missing) =
      consult (I := interface) (.find lookup) (entryOf kind missing) := by
  show (find lookup >>= _) = (find lookup >>= _)
  congr
  funext answer
  match answer with
  | .ok (some _) => rfl
  | .ok none => rfl
  | .error _ => rfl

theorem ensureAllowed_eq (caller : Option Caller) (space : Uuid) :
    ensureAllowed caller space = consult (I := interface) (.authorize caller space) leaveOf := by
  show (authorize caller space >>= _) = (authorize caller space >>= _)
  congr
  funext answer
  match answer with
  | .ok true => rfl
  | .ok false => rfl
  | .error _ => rfl

theorem keepOwner_eq (space : Uuid) (texts : List String) :
    keepOwner space texts =
      consult (I := interface) (.find (.space space)) (removableOf texts) := by
  show (find (.space space) >>= _) = (find (.space space) >>= _)
  congr
  funext answer
  match answer with
  | .ok (some found) =>
    show (if namesOwner found texts then refuse .ownerRemoved else pure ()) =
      ofResult (if namesOwner found texts then _ else _)
    cases namesOwner found texts <;> rfl
  | .ok none => rfl
  | .error _ => rfl

theorem fetchOf_eq (space : Uuid) :
    fetchOf space =
      consult (I := interface) (.find (.resource space)) (entryOf .notFound .unknownResource) >>=
        fun resource : SpaceResource =>
          consult (I := interface) (.fetch resource.policyId) (Result.as .serverError) := by
  rw [← entry_refuse]
  rfl

@[simp] theorem shows_readIdentity {text : String} {exchanges : List Exchanged}
    {result : Result Uuid} :
    Attempt.Shows (readIdentity text) exchanges result ↔
      exchanges = [] ∧ result = idOf .malformedIdentity text := by
  rw [readIdentity, idOf]
  cases Uuid.parse? text <;> exact Iff.rfl

theorem changeEach_cons (change : Change) (text : String) (rest : List String) (policy : Policy)
    (changed : Bool) :
    changeEach change (text :: rest) (policy, changed) =
      readIdentity text >>= fun id =>
        consult (I := interface) (.find (.identity id)) (entryOf .notFound .unknownIdentity) >>=
          fun _ : Identity => ofResult ((change.apply id policy).mapError (·.failure)) >>=
            fun state => changeEach change rest (state.1, changed || state.2) := by
  rw [changeEach]
  -- Both sides read the text first; what follows is compared for each value it may be read as.
  refine congrArg (readIdentity text >>= ·) (funext fun id => ?_)
  rw [entry_refuse]
  refine congrArg (consult _ _ >>= ·) (funext fun _ => ?_)
  cases change.apply id policy with
  | ok state => rfl
  | error e => rfl

/-! ### Changing a policy by each identity -/

/-- The exchanges in which identities were looked up and found. -/
def Found (xs : List Uuid) (exchanges : List Exchanged) : Prop :=
  List.Forall₂ (fun x e => ∃ identity, e = ⟨.find (.identity x), .ok (some identity)⟩) xs exchanges

/-- Changing a policy by each identity looks up identities and nothing else. -/
theorem changeEach_only (state : Policy × Bool) :
    Only Call.IsIdentityLookup (changeEach change texts state) := by
  induction texts generalizing state with
  | nil => exact .ofResult (.ok state)
  | cons text rest ih =>
    rw [changeEach_cons]
    -- Reading a text asks nothing, each entry is looked up, and a change is made without a call.
    refine .bind (.of_silent fun _ _ => shows_readIdentity) fun id => ?_
    refine .bind (.consult ⟨id, rfl⟩ _) fun _ => ?_
    exact .bind (.ofResult _) fun changed => ih _

/-- Where changing a policy by each identity succeeds, every text spells an identity that was looked
up and found, and the policy is changed by them in a row. -/
theorem changeEach_eq_ok {p q : Policy} {before after : Bool}
    (h : Attempt.Shows (changeEach change texts (p, before)) exchanges (.ok (q, after))) :
    ∃ xs, texts.map Uuid.parse? = xs.map some ∧ Found xs exchanges ∧
      change.applyEach xs (p, before) = .ok (q, after) := by
  induction texts generalizing p before exchanges with
  | nil =>
    -- With no texts nothing is changed, and the flag is still down.
    obtain ⟨rfl, hresult⟩ := h
    cases hresult
    exact ⟨[], rfl, .nil, rfl⟩
  | cons text rest ih =>
    rw [changeEach_cons, shows_bind_of_silent fun _ _ => shows_readIdentity] at h
    -- A step that fails would have been the end of it.
    rcases h with ⟨_, _, _, hfailed⟩ | ⟨id, hid, hlookup⟩
    · cases hfailed
    obtain ⟨answer, behind, rfl, hbehind⟩ := shows_consult_bind.mp hlookup
    rcases hbehind with ⟨_, _, _, hfailed⟩ | ⟨identity, hidentity, happlied⟩
    · cases hfailed
    rw [shows_ofResult_bind] at happlied
    rcases happlied with ⟨_, _, _, hfailed⟩ | ⟨⟨middle, differs⟩, hmiddle, hrest⟩
    · cases hfailed
    -- The flag may be up or down in the middle; the hypothesis is general in it.
    obtain ⟨xs, htexts, hfound, heach⟩ := ih hrest
    rw [idOf_eq_ok] at hid
    have hanswer : answer = .ok (some identity) := entryOf_eq_ok.mp hidentity
    have happly : change.apply id p = .ok (middle, differs) := mapError_eq_ok.mp hmiddle
    refine ⟨id :: xs, by rw [List.map_cons, List.map_cons, hid, htexts], ?_, ?_⟩
    · exact .cons ⟨identity, by rw [hanswer]⟩ hfound
    · rw [Change.applyEach, happly]
      exact heach

/-! ### From asking for leave to storing the policy -/

/-- What comes after the changes: the policy is stored if it is another one. -/
def finish (space : Uuid) (caller : Option Caller) (change : Change) (token : ProtectionToken) :
    Policy × Bool → Action Unit
  | (policy, true) =>
    consult (I := interface) (.store policy token) (Result.as .serverError) >>= fun _ => Attempt.log
      { level := .info, message := "Updated space collaborators"
        fields := [("space_id", space.text),
          ("caller", (caller.map (·.identity.text)).getD ""), ("update", change.name)] }
  | (_, false) =>
    Attempt.log
      { level := .debug, message := "Policy unchanged", fields := [("space_id", space.text)] }

theorem update_eq (change : Change) (caller : Option Caller) (space : Uuid) (texts : List String) :
    update change caller space texts =
      consult (I := interface) (.authorize caller space) leaveOf >>= fun _ =>
        consult (I := interface) (.find (.resource space)) (entryOf .notFound .unknownResource) >>=
          fun resource : SpaceResource =>
            consult (I := interface) (.fetch resource.policyId) (Result.as .serverError) >>=
              fun fetched : Policy × ProtectionToken =>
                changeEach change texts (fetched.1, false) >>=
                  finish space caller change fetched.2 := by
  rw [update, ensureAllowed_eq, fetchOf_eq]
  -- Once the binds lean the same way, the two sides agree step by step up to the flag.
  simp only [bind_assoc]
  refine congrArg (consult _ _ >>= ·) (funext fun _ => ?_)
  refine congrArg (consult _ _ >>= ·) (funext fun _ => ?_)
  refine congrArg (consult _ _ >>= ·) (funext fun _ => ?_)
  refine congrArg (changeEach _ _ _ >>= ·) (funext fun state => ?_)
  obtain ⟨policy, _ | _⟩ := state <;> rfl

/-- The exchanges by which a caller comes to hold the policy of a space. -/
def held (caller : Option Caller) (space : Uuid) (resource : SpaceResource) (policy : Policy)
    (token : ProtectionToken) : List Exchanged :=
  [⟨.authorize caller space, .ok true⟩, ⟨.find (.resource space), .ok (some resource)⟩,
    ⟨.fetch resource.policyId, .ok (policy, token)⟩]

/-- What an update of the members of a space may show, by where it ends. -/
inductive Update (change : Change) (caller : Option Caller) (space : Uuid) (texts : List String) :
    List Exchanged → Result Unit → Prop where
  /-- The caller is not allowed to. -/
  | refused (answer : Result Bool) (f : Failure) (h : leaveOf answer = .error f) :
      Update change caller space texts [⟨.authorize caller space, answer⟩] (.error f)
  /-- The space has no policy. -/
  | unlocated (answer : Result (Option SpaceResource)) (f : Failure)
      (h : entryOf .notFound .unknownResource answer = .error f) :
      Update change caller space texts
        [⟨.authorize caller space, .ok true⟩, ⟨.find (.resource space), answer⟩] (.error f)
  /-- The policy cannot be fetched. -/
  | unfetched (resource : SpaceResource) (f : Failure) :
      Update change caller space texts
        [⟨.authorize caller space, .ok true⟩, ⟨.find (.resource space), .ok (some resource)⟩,
          ⟨.fetch resource.policyId, .error f⟩] (.error (f.as .serverError))
  /-- One of the changes cannot be made. -/
  | spoilt (resource : SpaceResource) (policy : Policy) (token : ProtectionToken)
      (lookups : List Exchanged) (f : Failure)
      (h : Attempt.Shows (changeEach change texts (policy, false)) lookups (.error f)) :
      Update change caller space texts (held caller space resource policy token ++ lookups)
        (.error f)
  /-- The changes make no difference. -/
  | unchanged (resource : SpaceResource) (policy after : Policy) (token : ProtectionToken)
      (lookups : List Exchanged)
      (h : Attempt.Shows (changeEach change texts (policy, false)) lookups (.ok (after, false))) :
      Update change caller space texts (held caller space resource policy token ++ lookups) (.ok ())
  /-- The changed policy is stored, or that fails. -/
  | stored (resource : SpaceResource) (policy after : Policy) (token : ProtectionToken)
      (lookups : List Exchanged) (answer : Result Unit)
      (h : Attempt.Shows (changeEach change texts (policy, false)) lookups (.ok (after, true))) :
      Update change caller space texts
        (held caller space resource policy token ++ lookups ++ [⟨.store after token, answer⟩])
        (answer.as .serverError)

theorem shows_finish {space : Uuid} {caller : Option Caller} {token : ProtectionToken}
    {policy : Policy} {changed : Bool} {result : Result Unit} :
    Attempt.Shows (finish space caller change token (policy, changed)) exchanges result ↔
      if changed then
        ∃ answer, exchanges = [⟨.store policy token, answer⟩] ∧ result = answer.as .serverError
      else exchanges = [] ∧ result = .ok () := by
  cases changed with
  | false => exact Iff.rfl
  | true =>
    -- The store is a single call, so its answer alone decides.
    rw [finish, shows_consult_bind]
    constructor
    · rintro ⟨answer, behind, rfl, ⟨f, hf, rfl, rfl⟩ | ⟨⟨⟩, hok, rfl, rfl⟩⟩
      · exact ⟨answer, rfl, hf.symm⟩
      · exact ⟨answer, rfl, hok.symm⟩
    · rintro ⟨answer, rfl, rfl⟩
      refine ⟨answer, [], rfl, ?_⟩
      cases hread : Result.as .serverError answer with
      | error f => exact Or.inl ⟨f, rfl, rfl, rfl⟩
      | ok _ => exact Or.inr ⟨(), rfl, rfl, rfl⟩

theorem update_of_shows {caller : Option Caller} {space : Uuid} {result : Result Unit}
    (h : Attempt.Shows (update change caller space texts) exchanges result) :
    Update change caller space texts exchanges result := by
  rw [update_eq] at h
  -- Each step either ends the update, which is one of its shapes, or its answer is known.
  obtain ⟨leave, afterLeave, rfl, hleave⟩ := shows_consult_bind.mp h
  rcases hleave with ⟨f, hf, rfl, rfl⟩ | ⟨⟨⟩, hallowed, hlocate⟩
  · exact .refused leave f hf
  obtain rfl := leaveOf_eq_ok.mp hallowed
  -- The caller has leave. Now the place of the policy.
  obtain ⟨location, afterLocation, rfl, hlocation⟩ := shows_consult_bind.mp hlocate
  rcases hlocation with ⟨f, hf, rfl, rfl⟩ | ⟨resource, hresource, hfetch⟩
  · exact .unlocated location f hf
  obtain rfl := entryOf_eq_ok.mp hresource
  -- The place is known. Now the policy itself.
  obtain ⟨fetched, afterFetch, rfl, hfetched⟩ := shows_consult_bind.mp hfetch
  rcases hfetched with ⟨f, hf, rfl, rfl⟩ | ⟨⟨policy, token⟩, hpolicy, heach⟩
  · obtain ⟨g, rfl, rfl⟩ := Result.as_eq_error.mp hf
    exact .unfetched resource g
  obtain rfl := Result.as_eq_ok.mp hpolicy
  -- The policy is held. What is left are the changes, and the flag says whether to store.
  rcases shows_bind.mp heach with
    ⟨f, hspoilt, rfl⟩ | ⟨⟨after, _ | _⟩, lookups, stores, rfl, hok, hend⟩
  · exact .spoilt resource policy token afterFetch f hspoilt
  · obtain ⟨rfl, rfl⟩ := shows_finish.mp hend
    rw [List.append_nil]
    exact .unchanged resource policy after token lookups hok
  · obtain ⟨answer, rfl, rfl⟩ := shows_finish.mp hend
    exact .stored resource policy after token lookups answer hok

/-! ### Whole requests -/

/-- What a request looks up before the update: a removal makes sure that the owner stays. -/
inductive Opening (space : Uuid) (texts : List String) : Change → List Exchanged → Prop where
  /-- To add, nothing has to be looked up. -/
  | add : Opening space texts .add []
  /-- The owner of the space is not among the identities to be removed. -/
  | remove (found : Space) (h : namesOwner found texts = false) :
      Opening space texts .remove [⟨.find (.space space), .ok (some found)⟩]

/-- What a request to change the members of a space may show, by where it ends. -/
inductive Alteration (change : Change) (place : String) (caller : Option Caller) (text : String)
    (texts : List String) : List Exchanged → Result Unit → Prop where
  /-- The text names no space. -/
  | malformed (f : Failure) (h : Uuid.parse? text = none) :
      Alteration change place caller text texts [] (.error f)
  /-- The space is not there, or its owner would be removed. -/
  | kept (space : Uuid) (answer : Result (Option Space)) (f : Failure)
      (hspace : Uuid.parse? text = some space) (hchange : change = .remove)
      (h : removableOf texts answer = .error f) :
      Alteration change place caller text texts [⟨.find (.space space), answer⟩]
        (.error (f.through place))
  /-- The members of the space are updated. -/
  | updated (space : Uuid) (opening rest : List Exchanged) (result : Result Unit)
      (hspace : Uuid.parse? text = some space) (hopening : Opening space texts change opening)
      (h : Update change caller space texts rest result) :
      Alteration change place caller text texts (opening ++ rest) (result.through place)

/-- Whatever answers a request gets, what it shows is an alteration. -/
theorem alteration_of_shows {place : String} {caller : Option Caller} {text : String}
    {result : Result Unit}
    (h : Attempt.Shows (alter change place caller text texts) exchanges result) :
    Alteration change place caller text texts exchanges result := by
  cases change with
  | add =>
    rw [alter, readId_eq] at h
    -- For an addition the owner need not be looked up, so the update comes right after the text.
    obtain ⟨inner, hinner, rfl⟩ := shows_through.mp h
    rcases shows_ofResult_bind.mp hinner with ⟨f, hf, rfl, rfl⟩ | ⟨space, hspace, hupdate⟩
    · exact .malformed _ (idOf_eq_error.mp hf).1
    · exact .updated space [] exchanges inner (idOf_eq_ok.mp hspace) .add (update_of_shows hupdate)
  | remove =>
    rw [alter, readId_eq] at h
    -- A text that cannot be read is told apart before the place is added to a failure.
    rcases shows_ofResult_bind.mp h with ⟨f, hf, rfl, rfl⟩ | ⟨space, hspace, hremove⟩
    · exact .malformed f (idOf_eq_error.mp hf).1
    rw [idOf_eq_ok] at hspace
    obtain ⟨inner, hinner, rfl⟩ := shows_through.mp hremove
    -- The owner is looked up first, and a removal of the owner ends the request there.
    rw [keepOwner_eq] at hinner
    obtain ⟨answer, rest, rfl, hrest⟩ := shows_consult_bind.mp hinner
    rcases hrest with ⟨f, hf, rfl, rfl⟩ | ⟨⟨⟩, hkept, hupdate⟩
    · exact .kept space answer f hspace rfl hf
    · obtain ⟨found, rfl, hothers⟩ := removableOf_eq_ok.mp hkept
      exact .updated space _ rest inner hspace (.remove found hothers) (update_of_shows hupdate)

/-- What a request to change members shows: nothing if it names no identities, else an
alteration. -/
theorem mutation_of_shows {caller : Option Caller} {m : Mutation} {result : Result Unit}
    (h : Attempt.Shows (m.perform caller) exchanges result) :
    (m.batch.data = none ∧ exchanges = [] ∧ result = .ok ()) ∨
      ∃ entries, m.batch.data = some entries ∧
        Alteration m.change m.place caller m.space (entries.filterMap id) exchanges result := by
  rw [Mutation.perform_eq, alterAll] at h
  cases hdata : m.batch.data with
  | none =>
    rw [hdata] at h
    exact Or.inl ⟨rfl, h⟩
  | some entries =>
    rw [hdata] at h
    exact Or.inr ⟨entries, rfl, alteration_of_shows h⟩

/-! ### Where a policy is stored -/

/-- What is not in the front of a row stands behind it. -/
theorem exists_eq_append_of_notMem {α : Type} {front back before after : List α} {e : α}
    (h : front ++ back = before ++ e :: after) (he : e ∉ front) :
    ∃ between, before = front ++ between ∧ back = between ++ e :: after := by
  rcases List.append_eq_append_iff.mp h with ⟨between, hbefore, hback⟩ | ⟨rest, hfront, hrest⟩
  · exact ⟨between, hbefore, hback⟩
  · cases rest with
    | nil => exact ⟨[], by simpa using hfront.symm, by simpa using hrest.symm⟩
    -- Then the element is the first of the rest, which belongs to the front.
    | cons first rest =>
      obtain rfl : e = first := (List.cons.inj hrest).1
      exact absurd (by simp [hfront]) he

/-- What is not in the front of a row that has only one more element is that element. -/
theorem last_of_notMem {α : Type} (front : List α) {before after : List α} {last e : α}
    (h : front ++ [last] = before ++ e :: after) (he : e ∉ front) :
    before = front ∧ e = last ∧ after = [] := by
  obtain ⟨between, rfl, hlast⟩ := exists_eq_append_of_notMem h he
  -- A row of one element has no room for anything in between.
  cases between with
  | cons _ _ => simp at hlast
  | nil =>
    obtain ⟨rfl, rfl⟩ := List.cons.inj ((List.nil_append _).symm ▸ hlast)
    exact ⟨List.append_nil _, rfl, rfl⟩

theorem held_append_reads {caller : Option Caller} {space : Uuid} {resource : SpaceResource}
    {policy : Policy} {token : ProtectionToken} {state : Policy × Bool} {lookups : List Exchanged}
    {result : Result (Policy × Bool)}
    (h : Attempt.Shows (changeEach change texts state) lookups result) :
    ∀ e ∈ held caller space resource policy token ++ lookups, e.call.isStore = false := by
  refine List.forall_mem_append.mpr ⟨by simp [held, Call.isStore], fun e he => ?_⟩
  obtain ⟨x, hx⟩ := changeEach_only state lookups result h e he
  rw [hx]
  rfl

/-- An update stores nothing, or it ends with the attempt to store the policy that it fetched,
changed by the identities that the texts spell, all of which it has found, and with what that attempt
was answered with. -/
theorem Update.stores {caller : Option Caller} {space : Uuid} {result : Result Unit}
    (h : Update change caller space texts exchanges result) :
    (∀ e ∈ exchanges, e.call.isStore = false) ∨
      ∃ resource fetched after token lookups answer xs,
        exchanges = held caller space resource fetched token ++ lookups ++
          [⟨.store after token, answer⟩] ∧
        (∀ e ∈ held caller space resource fetched token ++ lookups, e.call.isStore = false) ∧
        texts.map Uuid.parse? = xs.map some ∧ Found xs lookups ∧
        change.applyEach xs (fetched, false) = .ok (after, true) ∧
        result = answer.as .serverError := by
  cases h with
  -- An update that ends early has only asked, looked up and fetched.
  | refused => exact Or.inl (by simp [Call.isStore])
  | unlocated => exact Or.inl (by simp [Call.isStore])
  | unfetched => exact Or.inl (by simp [Call.isStore])
  | spoilt resource fetched token lookups f hspoilt => exact Or.inl (held_append_reads hspoilt)
  | unchanged resource fetched after token lookups hok => exact Or.inl (held_append_reads hok)
  | stored resource fetched after token lookups answer hok =>
    obtain ⟨xs, htexts, hfound, happlied⟩ := changeEach_eq_ok hok
    exact Or.inr ⟨resource, fetched, after, token, lookups, answer, xs, rfl, held_append_reads hok,
      htexts, hfound, happlied, rfl⟩

/-- An update that succeeds has changed a policy by the identities that the texts spell, and has
stored what that came to if it is another policy. -/
theorem Update.of_ok {caller : Option Caller} {space : Uuid}
    (h : Update change caller space texts exchanges (.ok ())) :
    ∃ resource fetched after differs token lookups xs,
      exchanges = held caller space resource fetched token ++ lookups ++
        (if differs then [⟨.store after token, .ok ()⟩] else []) ∧
      (∀ e ∈ held caller space resource fetched token ++ lookups, e.call.isStore = false) ∧
      texts.map Uuid.parse? = xs.map some ∧
      change.applyEach xs (fetched, false) = .ok (after, differs) := by
  generalize hresult : (Except.ok () : Result Unit) = result at h
  cases h with
  -- The updates that end in a failure are not the ones meant here.
  | refused => cases hresult
  | unlocated => cases hresult
  | unfetched => cases hresult
  | spoilt => cases hresult
  | unchanged resource fetched after token lookups hok =>
    obtain ⟨xs, htexts, -, happlied⟩ := changeEach_eq_ok hok
    exact ⟨resource, fetched, after, false, token, lookups, xs, (List.append_nil _).symm,
      held_append_reads hok, htexts, happlied⟩
  | stored resource fetched after token lookups answer hok =>
    obtain ⟨xs, htexts, -, happlied⟩ := changeEach_eq_ok hok
    -- The answer to the store is the result, so it was a success.
    obtain rfl : answer = .ok () := Result.as_eq_ok.mp hresult.symm
    exact ⟨resource, fetched, after, true, token, lookups, xs, rfl, held_append_reads hok, htexts,
      happlied⟩

theorem Opening.calls {space : Uuid} {opening : List Exchanged}
    (h : Opening space texts change opening) : ∀ e ∈ opening, e.call = .find (.space space) := by
  cases h <;> simp

/-- Where a request stores a policy, nothing comes after it, and what comes before it is known. -/
theorem Alteration.store_eq {place text : String} {caller : Option Caller} {result : Result Unit}
    {before after : List Exchanged} {policy : Policy} {token : ProtectionToken}
    {answer : Result Unit} (h : Alteration change place caller text texts exchanges result)
    (heq : exchanges = before ++ (⟨.store policy token, answer⟩ : Exchanged) :: after) :
    after = [] ∧ ∃ space opening resource fetched lookups xs,
      Uuid.parse? text = some space ∧ Opening space texts change opening ∧
      before = opening ++ (held caller space resource fetched token ++ lookups) ∧
      texts.map Uuid.parse? = xs.map some ∧ Found xs lookups ∧
      change.applyEach xs (fetched, false) = .ok (policy, true) := by
  -- Requests that end before the update make no such call, so the update is where it is made.
  have hmem : (⟨.store policy token, answer⟩ : Exchanged) ∈ exchanges := by simp [heq]
  cases h with
  | malformed f h => simp at hmem
  | kept space given f hspace => simp at hmem
  | updated space opening rest result hspace hopening hupdate =>
    -- The opening looks up the space only, so the store is behind it.
    obtain ⟨between, rfl, hrest⟩ := exists_eq_append_of_notMem heq fun hmem => by
      cases hopening.calls _ hmem
    rcases hupdate.stores with hreads |
      ⟨resource, fetched, changed, given, lookups, reply, xs, hrow, hreads, htexts, hfound, happlied,
        -⟩
    · exact absurd (hreads ⟨.store policy token, answer⟩ (by simp [hrest])) (by simp [Call.isStore])
    · rw [hrow] at hrest
      -- The rows in front only read, so the store is the last row.
      obtain ⟨rfl, hsame, hafter⟩ := last_of_notMem _ hrest fun hmem => by
        cases hreads _ hmem
      cases hsame
      exact ⟨hafter, space, opening, resource, fetched, lookups, xs, hspace, hopening, rfl, htexts,
        hfound, happlied⟩

/-! ### Listings -/

/-- What a listing does with the policy that it fetched. -/
def listed (space : Uuid) (page : PageRequest) (path : String) (policy : Policy) : Action Listing :=
  do
    let ids ← membersOf space policy
    let window := Window.of ids.length.toUInt64 page.start page.size
    let identities ← (window.items ids).mapM member
    return {
      identities
      total := ids.length
      path
      links := PageLinks.around identities.length.toUInt64 window.offset window.limit
        ids.length.toUInt64 }

theorem list_eq (space : String) (page : PageRequest) (path : String) :
    list space page path =
      ofResult (idOf .malformedSpace space) >>= fun id =>
        (fetchOf id).through "s:list_collaborators" >>= fun fetched =>
          listed id page path fetched.1 := by
  rw [list, readId_eq]
  rfl

theorem entry_only {kind : FailureKind} {lookup : Lookup} {missing : Action lookup.Entry}
    (h : Only Call.IsLookup missing) : Only Call.IsLookup (entry kind lookup missing) := by
  refine .bind (x := find lookup) (fun exchanges result hfind => ?_) fun answer => ?_
  · obtain ⟨_, rfl, -⟩ := shows_call.mp hfind
    simp [Call.IsLookup]
  · refine .bind (.ofResult _) fun found => ?_
    cases found with
    | none => exact h
    | some entry => exact .ofResult (.ok entry)

theorem listed_only (space : Uuid) (page : PageRequest) (path : String) (policy : Policy) :
    Only Call.IsLookup (listed space page path policy) := by
  -- Noting an event is no call, so the entries below count by their lookups alone.
  have hlog (event : Event) : Only (I := interface) Call.IsLookup (Attempt.log event) :=
    .of_silent fun _ _ => shows_log
  have hmembers : Only Call.IsLookup (membersOf space policy) := by
    rw [membersOf]
    cases policy.members with
    | ok ids => exact .ofResult (.ok ids)
    | error e => exact .bind (hlog _) fun _ => .ofResult (.error e.failure)
  have hmember (id : Uuid) : Only Call.IsLookup (member id) :=
    entry_only (.bind (hlog _) fun _ => .ofResult (.error Refusal.unknownMember.failure))
  exact .bind hmembers fun ids => .bind (.mapM hmember _) fun _ => .ofResult (.ok _)

/-- A listing looks something up and fetches, and makes no other calls. -/
theorem list_only (space : String) (page : PageRequest) (path : String) :
    Only Call.Reads (list space page path) := by
  have hfetch (id : Uuid) : Only Call.Reads (fetchOf id) := by
    rw [fetchOf_eq]
    exact .bind (.consult trivial _) fun _ => .consult trivial _
  rw [list_eq]
  refine .bind (.ofResult _) fun id => .bind (.through (hfetch id) _) fun fetched => ?_
  refine (listed_only id page path fetched.1).mono fun call hcall => ?_
  -- Lookups are among the calls that read.
  obtain ⟨lookup, rfl⟩ := hcall
  trivial

/-- What a request shows: a listing looks something up and fetches, and any other one shows what its
mutation shows. -/
theorem request_of_shows {r : Request} {result : Result (Option Listing)}
    (h : Attempt.Shows r.perform exchanges result) :
    (∀ e ∈ exchanges, e.call.Reads) ∨
      ∃ caller m outcome, r = .change caller m ∧
        Attempt.Shows (m.perform caller) exchanges outcome := by
  cases r with
  | list space page path =>
    obtain ⟨listing, hlist, -⟩ := shows_map.mp h
    exact Or.inl (list_only space page path exchanges listing hlist)
  | change caller m =>
    obtain ⟨outcome, hchange, -⟩ := shows_map.mp h
    exact Or.inr ⟨caller, m, outcome, rfl, hchange⟩

/-- A request is careful if only to store a policy may be a call that is not allowed, and every
policy that an alteration stores behind credible answers is allowed to be stored. -/
theorem Request.careful_of_stores {credible : Exchanged → Prop} {allowed : Call → Prop}
    (hreads : ∀ call : Call, call.isStore = false → allowed call)
    (hstores : ∀ {change place caller text texts exchanges result before after}
      {answer : Result Unit} (policy : Policy) (token : ProtectionToken),
      Alteration change place caller text texts exchanges result →
      exchanges = before ++ (⟨.store policy token, answer⟩ : Exchanged) :: after →
      (∀ e ∈ before, credible e) → allowed (.store policy token))
    (r : Request) : r.perform.run.Careful credible allowed := by
  refine Program.careful_of_shows Call.nonempty_answer fun exchanges value hshows before e after heq
    hcredible => ?_
  obtain ⟨call, answer⟩ := e
  have hmem : (⟨call, answer⟩ : Exchanged) ∈ exchanges := by simp [heq]
  cases call with
  | find lookup => exact hreads _ rfl
  | authorize caller space => exact hreads _ rfl
  | fetch name => exact hreads _ rfl
  | store policy token =>
    -- A listing stores nothing, and neither does a request that names nobody.
    rcases request_of_shows hshows with honly | ⟨caller, m, outcome, -, hmutation⟩
    · exact absurd (honly _ hmem) (by simp [Call.Reads])
    · rcases mutation_of_shows hmutation with ⟨-, hnone, -⟩ | ⟨entries, -, halteration⟩
      · simp [hnone] at hmem
      · exact hstores policy token halteration heq hcredible

end Roster.Service
