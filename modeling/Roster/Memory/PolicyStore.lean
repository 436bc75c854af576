import Roster.Policy

/-!
# A policy store in memory

Policies under the names that they are fetched by. Every fetch issues a new token and outdates the
earlier ones: a policy is only stored with the newest token, so what has been fetched before the
last fetch cannot overwrite anything. A store may also be a lagging one, of which every token is
outdated as soon as it is issued.
-/

namespace Roster

/-- A store of policies that counts the tokens it has issued. -/
structure PolicyStore where
  /-- The policies under their names, which are distinct. -/
  policies : List (String × Policy) := []
  /-- How many tokens have been issued. -/
  issued : Nat := 0
  /-- Whether every token is outdated as soon as it is issued. -/
  lagging : Bool := false

namespace PolicyStore

/-- The token of a number. -/
def token (n : Nat) : ProtectionToken :=
  ⟨"pat-" ++ String.ofList (Text.ofNat n)⟩

/-- The failure to fetch a policy that is not there. -/
def unknownPolicy : Failure where
  kind := .serverError
  message := "Policy not found"

/-- The failure to store a policy with an outdated token. -/
def outdatedToken : Failure where
  kind := .serverError
  message := "Stale protection token"

/-- The policy of a name. -/
def get? (name : String) (s : PolicyStore) : Option Policy :=
  s.policies.lookup name

/-- Puts a policy under a name among others. -/
def putIn (name : String) (policy : Policy) : List (String × Policy) → List (String × Policy)
  | [] => [(name, policy)]
  | (n, p) :: rest => if n = name then (n, policy) :: rest else (n, p) :: putIn name policy rest

/-- Puts a policy under a name. -/
def put (name : String) (policy : Policy) (s : PolicyStore) : PolicyStore :=
  { s with policies := putIn name policy s.policies }

/-- Gives the policy of a name, if there is one, another text for its member list. -/
def setUsers (name users : String) (s : PolicyStore) : PolicyStore :=
  match s.get? name with
  | some policy => s.put name (policy.withUsers users)
  | none => s

/-- The name that a policy is stored under: its own identifier. -/
def nameOf (policy : Policy) : String :=
  policy.id.getD ""

/-- Fetches a policy with a new token. -/
def fetch (name : String) (s : PolicyStore) : Result (Policy × ProtectionToken) × PolicyStore :=
  match s.get? name with
  | none => (.error unknownPolicy, s)
  | some policy =>
    (.ok (policy, token (s.issued + 1)),
      { s with issued := s.issued + (if s.lagging then 2 else 1) })

/-- Stores a policy under its own name, if the token is the newest one. -/
def store (policy : Policy) (t : ProtectionToken) (s : PolicyStore) : Result Unit × PolicyStore :=
  if t = token s.issued then (.ok (), s.put (nameOf policy) policy) else (.error outdatedToken, s)

/-! ### Looking up what has been put -/

private theorem lookup_entry (other n : String) (p : Policy) (rest : List (String × Policy)) :
    List.lookup other ((n, p) :: rest) = if other = n then some p else rest.lookup other := by
  rw [List.lookup_cons]
  by_cases h : other = n
  · simp [h]
  · simp [h, beq_eq_false_iff_ne.mpr h]

theorem lookup_putIn (name other : String) (policy : Policy) (l : List (String × Policy)) :
    (putIn name policy l).lookup other = if other = name then some policy else l.lookup other := by
  induction l with
  | nil => exact lookup_entry other name policy []
  | cons entry rest ih =>
    obtain ⟨n, p⟩ := entry
    rw [putIn, lookup_entry]
    split
    · subst_vars
      by_cases ho : other = n <;> simp [lookup_entry, ho]
    · rw [lookup_entry, ih]
      by_cases ho : other = n <;> simp_all

/-- The policy under a name is the one put there last. -/
theorem get?_put (name other : String) (policy : Policy) (s : PolicyStore) :
    (s.put name policy).get? other = if other = name then some policy else s.get? other :=
  lookup_putIn name other policy s.policies

end PolicyStore

end Roster
