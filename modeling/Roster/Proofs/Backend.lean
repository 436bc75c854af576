import Roster.Memory.Backend
import Roster.Proofs.Exchanges
import Roster.Proofs.Request

/-!
# What backends have in common

Backends differ in when calls fail and in which tokens they take. What requests rely on is the rest
(`Serves`): lookups and fetches that succeed tell what is there, only storing a policy changes the
policies, and it puts the policy under its own name. Two ways of answering serve:

* `Backend.answerUnder` — the faults of every single call are given by a plan;
* `Backend.answerWith` — tokens are looked at, or every token is taken.

Where nothing is stored, everything stays, and every exchange tells about the state at the start
(`Serves.credible`).
-/

namespace Roster

open Service

/-- The handler answers the service's calls from a directory and policies. Any call may fail, and
then changes nothing. -/
structure Serves {σ : Type} (handler : Handler interface σ) (directory : σ → Directory)
    (policies : σ → List (String × Policy)) : Prop where
  /-- A lookup that succeeds finds what is in the directory. -/
  find : ∀ l s entry, (handler (.find l) s).1 = .ok entry → entry = (directory s).find? l
  /-- A fetch that succeeds finds what is among the policies. -/
  fetch : ∀ name s policy token, (handler (.fetch name) s).1 = .ok (policy, token) →
    (policies s).lookup name = some policy
  /-- The directory stays. -/
  directory_eq : ∀ call s, directory (handler call s).2 = directory s
  /-- Only storing changes the policies. -/
  policies_eq : ∀ call s, call.isStore = false → policies (handler call s).2 = policies s
  /-- A policy that is stored is put under its own name. -/
  stored : ∀ policy token s, (handler (.store policy token) s).1 = .ok () →
    policies (handler (.store policy token) s).2 =
      PolicyStore.putIn (PolicyStore.nameOf policy) policy (policies s)
  /-- A policy that is not stored changes nothing. -/
  rejected : ∀ policy token s f, (handler (.store policy token) s).1 = .error f →
    policies (handler (.store policy token) s).2 = policies s

/-- What an exchange that succeeds tells about a directory and policies. -/
def Credible (directory : Directory) (policies : List (String × Policy)) :
    Exchange interface → Prop
  | ⟨.find l, answer⟩ => ∀ entry, answer = .ok entry → entry = directory.find? l
  | ⟨.fetch name, answer⟩ =>
    ∀ policy token, answer = .ok (policy, token) → policies.lookup name = some policy
  | ⟨.authorize _ _, _⟩ => True
  | ⟨.store _ _, _⟩ => True

variable {σ : Type} {handler : Handler interface σ} {directory : σ → Directory}
  {policies : σ → List (String × Policy)}

theorem Serves.credible_answer (h : Serves handler directory policies) (call : Call) (s : σ) :
    Credible (directory s) (policies s) ⟨call, (handler call s).1⟩ := by
  cases call with
  | find l => exact h.find l s
  | fetch name => exact h.fetch name s
  | authorize _ _ => trivial
  | store _ _ => trivial

/-- Where nothing is stored, directory and policies stay, and every exchange tells about them. -/
theorem Serves.credible (h : Serves handler directory policies)
    {exchanges : List (Exchange interface)} {first last : σ}
    (hanswers : Answers handler first exchanges last)
    (hreads : ∀ e ∈ exchanges, e.call.isStore = false) :
    directory last = directory first ∧ policies last = policies first ∧
      ∀ e ∈ exchanges, Credible (directory first) (policies first) e := by
  induction exchanges generalizing first with
  | nil =>
    obtain rfl := hanswers
    simp
  | cons e rest ih =>
    obtain ⟨call, rfl, hrest⟩ := hanswers.exists_cons
    have hread : call.isStore = false := hreads _ List.mem_cons_self
    -- Behind the first exchange the state may be another one, but it has the same directory and
    -- policies.
    obtain ⟨hdirectory, hpolicies, hcredible⟩ :=
      ih hrest fun e he => hreads e (List.mem_cons_of_mem _ he)
    rw [h.directory_eq, h.policies_eq call first hread] at hcredible
    refine ⟨hdirectory.trans (h.directory_eq call first),
      hpolicies.trans (h.policies_eq call first hread), ?_⟩
    exact List.forall_mem_cons.mpr ⟨h.credible_answer call first, hcredible⟩

/-! ### Policies under their own names -/

/-- Every policy is under its own name. -/
def KeepsNames (policies : List (String × Policy)) : Prop :=
  ∀ name policy, policies.lookup name = some policy → PolicyStore.nameOf policy = name

theorem KeepsNames.putIn {policies : List (String × Policy)} (h : KeepsNames policies)
    (policy : Policy) :
    KeepsNames (PolicyStore.putIn (PolicyStore.nameOf policy) policy policies) := by
  intro name other hother
  rw [PolicyStore.lookup_putIn] at hother
  split at hother
  · -- Under the name of the policy that was put there, it is the policy found.
    obtain rfl := Option.some.inj hother
    exact (by assumption : name = _).symm
  · exact h name other hother

/-! ### Ways of answering -/

namespace PolicyStore

theorem token_inj {m n : Nat} (h : token m = token n) : m = n := by
  -- Tokens differ in their numerals only, and a numeral is read as one number.
  have htext : String.ofList (Text.ofNat m) = String.ofList (Text.ofNat n) :=
    (String.append_right_inj _).mp (congrArg ProtectionToken.text h)
  have hdigits : Text.ofNat m = Text.ofNat n := String.ofList_injective htext
  exact Option.some.inj (by rw [← Text.readDigits?_ofNat, hdigits, Text.readDigits?_ofNat])

/-- A fetch that succeeds finds what is under the name, and takes the next token. -/
theorem fetch_eq_ok {name : String} {s : PolicyStore} {policy : Policy} {token : ProtectionToken}
    (h : (s.fetch name).1 = .ok (policy, token)) :
    s.get? name = some policy ∧ token = PolicyStore.token (s.issued + 1) := by
  cases hget : s.get? name with
  -- Where nothing is under the name, the fetch fails.
  | none =>
    rw [fetch, hget] at h
    cases h
  | some found =>
    rw [fetch, hget] at h
    cases h
    exact ⟨rfl, rfl⟩

@[simp] theorem policies_fetch (name : String) (s : PolicyStore) :
    (s.fetch name).2.policies = s.policies := by
  rw [fetch]
  cases s.get? name <;> rfl

@[simp] theorem lagging_fetch (name : String) (s : PolicyStore) :
    (s.fetch name).2.lagging = s.lagging := by
  rw [fetch]
  cases s.get? name <;> rfl

theorem policies_store_of_ok {policy : Policy} {t : ProtectionToken} {s : PolicyStore}
    (h : (s.store policy t).1 = .ok ()) :
    (s.store policy t).2.policies = putIn (nameOf policy) policy s.policies := by
  rw [store] at h ⊢
  split at h
  · -- The token was taken, so the policy is put in.
    rw [if_pos (by assumption)]
    rfl
  · cases h

theorem store_of_error {policy : Policy} {t : ProtectionToken} {s : PolicyStore} {f : Failure}
    (h : (s.store policy t).1 = .error f) : (s.store policy t).2 = s := by
  rw [store] at h ⊢
  split at h
  · cases h
  · -- The token was not taken, and a store that fails leaves the state as it is.
    rw [if_neg (by assumption)]

end PolicyStore

namespace Backend

theorem failingWith_eq_ok {α : Type} {fault : Option Failure} {r : Result α} {value : α}
    (h : failingWith fault r = .ok value) : r = .ok value := by
  cases fault with
  | none => exact h
  | some f => cases h

theorem serves_answer : Serves answer Backend.directory fun b => b.store.policies where
  find l b entry h := by
    exact (Except.ok.inj (failingWith_eq_ok h)).symm
  fetch name b policy token h := by
    -- A fault hides what the store would have answered; the hypothesis says there was none.
    cases hfault : b.faults.fetch with
    | some f =>
      rw [answer, hfault] at h
      cases h
    | none =>
      rw [answer, hfault] at h
      exact (PolicyStore.fetch_eq_ok h).1
  directory_eq call b := by
    cases call with
    | find l => rfl
    | authorize caller space => rfl
    | fetch name =>
      rw [answer]
      cases b.faults.fetch <;> rfl
    | store policy token =>
      rw [answer]
      cases b.faults.store <;> rfl
  policies_eq call b hread := by
    cases call with
    | find l => rfl
    | authorize caller space => rfl
    | fetch name =>
      -- A fetch issues a token, which leaves the policies alone.
      rw [answer]
      cases b.faults.fetch with
      | some f => rfl
      | none => exact PolicyStore.policies_fetch name b.store
    | store policy token => cases hread
  stored policy token b h := by
    cases hfault : b.faults.store with
    | some f =>
      rw [answer, hfault] at h
      cases h
    | none =>
      -- Without a fault, the answer is that of the store.
      rw [answer, hfault] at h ⊢
      exact PolicyStore.policies_store_of_ok h
  rejected policy token b f h := by
    cases hfault : b.faults.store with
    | some f =>
      rw [answer, hfault]
    | none =>
      rw [answer, hfault] at h ⊢
      exact congrArg PolicyStore.policies (PolicyStore.store_of_error h)

/-- Answers a call as a backend does of which every single call meets the faults of the moment: the
faults of each call, counted from the first one, are given by a plan. -/
def answerUnder (plan : Nat → Faults) : Handler interface (Backend × Nat)
  | call, (b, n) =>
    let (answer, b) := answer call { b with faults := plan n }
    (answer, (b, n + 1))

theorem serves_answerUnder (plan : Nat → Faults) :
    Serves (answerUnder plan) (fun s => s.1.directory) fun s => s.1.store.policies where
  find l s := serves_answer.find l { s.1 with faults := plan s.2 }
  fetch name s := serves_answer.fetch name { s.1 with faults := plan s.2 }
  directory_eq call s := serves_answer.directory_eq call { s.1 with faults := plan s.2 }
  policies_eq call s := serves_answer.policies_eq call { s.1 with faults := plan s.2 }
  stored policy token s := serves_answer.stored policy token { s.1 with faults := plan s.2 }
  rejected policy token s := serves_answer.rejected policy token { s.1 with faults := plan s.2 }

/-- Answers a call as a backend does that is strict about tokens, or as one that takes every token
for the newest one. -/
def answerWith (strict : Bool) : Handler interface Backend
  | .store policy token, b =>
    answer (.store policy (if strict then token else PolicyStore.token b.store.issued)) b
  | call, b => answer call b

@[simp] theorem answerWith_true : answerWith true = answer := by
  funext call b
  cases call <;> rfl

theorem serves_answerWith (strict : Bool) :
    Serves (answerWith strict) Backend.directory fun b => b.store.policies where
  find l b := serves_answer.find l b
  fetch name b := serves_answer.fetch name b
  directory_eq call b := by
    cases call <;> exact serves_answer.directory_eq _ b
  policies_eq call b hread := by
    cases call with
    | store policy token => cases hread
    | find l => exact serves_answer.policies_eq _ b rfl
    | authorize caller space => exact serves_answer.policies_eq _ b rfl
    | fetch name => exact serves_answer.policies_eq _ b rfl
  stored policy token b := serves_answer.stored policy _ b
  rejected policy token b := serves_answer.rejected policy _ b

end Backend

/-! ### A small world -/

/-- The identifier with the last hexadecimal digit of a number in all places. -/
def Uuid.uniform (digit : Nat) : Uuid :=
  ⟨List.replicate 32 ⟨digit % 16, Nat.mod_lt digit (Nat.succ_pos 15)⟩, List.length_replicate⟩

/-- An identity of which only the identifier is known. -/
def Identity.nameless (id : Uuid) : Identity :=
  ⟨id, default, default, "", "", none, "", "", "", "", "", ""⟩

/-- A policy that lists members and says nothing else. -/
def Policy.listing (id : String) (members : List Uuid) : Policy :=
  ⟨some id, "", "", "", "", ⟨MemberList.encode members, []⟩, []⟩

/-- A backend with one space, of which the owner is the only member, and with two guests. -/
def Backend.sample : Backend where
  directory :=
    { identities := [.nameless (.uniform 1), .nameless (.uniform 2), .nameless (.uniform 3)]
      spaces := [⟨.uniform 0, .uniform 1⟩]
      resources := [⟨.uniform 0, "policy"⟩] }
  store := { policies := [("policy", .listing "policy" [.uniform 1])] }

theorem Backend.keepsNames_sample : KeepsNames sample.store.policies := by
  -- No policy is under a wrong name where there is none.
  have hnone : KeepsNames [] := fun _ _ h => by cases h
  exact hnone.putIn (.listing "policy" [.uniform 1])

end Roster
