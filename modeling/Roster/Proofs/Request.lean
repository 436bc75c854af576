import Roster.Service.Listing
import Roster.Service.Membership

/-!
# Requests and calls as data

The requests that the service serves, each with what it names. The four requests that change the
members of a space are one action with parameters (`Mutation.perform_eq`): a single identity counts
as a batch of one. The kinds of calls by which properties of requests are stated are here as well.
-/

namespace Roster.Service

/-- A request to change the members of a space. -/
inductive Mutation where
  /-- Adds an identity. -/
  | add (space identity : String)
  /-- Adds the identities of a batch. -/
  | addAll (space : String) (batch : IdentityBatch)
  /-- Removes an identity. -/
  | remove (space identity : String)
  /-- Removes the identities of a batch. -/
  | removeAll (space : String) (batch : IdentityBatch)

namespace Mutation

/-- Whether a request adds or removes. -/
def change : Mutation → Change
  | add _ _ => .add
  | addAll _ _ => .add
  | remove _ _ => .remove
  | removeAll _ _ => .remove

/-- The text that names the space. -/
def space : Mutation → String
  | add space _ => space
  | addAll space _ => space
  | remove space _ => space
  | removeAll space _ => space

/-- The identities that a request names. -/
def batch : Mutation → IdentityBatch
  | add _ identity => ⟨some [some identity]⟩
  | addAll _ batch => batch
  | remove _ identity => ⟨some [some identity]⟩
  | removeAll _ batch => batch

/-- Where failures are said to have passed through. -/
def place : Mutation → String
  | add _ _ => "s:add_collaborator"
  | addAll _ _ => "s:add_collaborators"
  | remove _ _ => "s:remove_collaborator"
  | removeAll _ _ => "s:remove_collaborators"

/-- What the service does when it is asked to change members. -/
def perform (caller : Option Caller) : Mutation → Action Unit
  | add space identity => Service.add caller space identity
  | addAll space batch => Service.addAll caller space batch
  | remove space identity => Service.remove caller space identity
  | removeAll space batch => Service.removeAll caller space batch

/-- Every request to change members changes them by the identities of a batch. -/
theorem perform_eq (caller : Option Caller) (m : Mutation) :
    m.perform caller = alterAll m.change m.place caller m.space m.batch := by
  -- The forms for one identity are those for a batch of one.
  cases m <;> rfl

end Mutation

/-- A request. -/
inductive Request where
  /-- Asks for a page of the members of a space. -/
  | list (space : String) (page : PageRequest) (path : String)
  /-- Asks to change the members of a space. -/
  | change (caller : Option Caller) (mutation : Mutation)

namespace Request

/-- What the service does when it is asked. Only a listing has something to answer with. -/
def perform : Request → Action (Option Listing)
  | list space page path => some <$> Service.list space page path
  | change caller mutation => (fun _ => none) <$> mutation.perform caller

/-- Whether a request asks to change members. -/
def isChange : Request → Bool
  | list _ _ _ => false
  | change _ _ => true

end Request

/-! ### Kinds of calls -/

namespace Call

def isAuthorize : Call → Bool
  | .authorize _ _ => true
  | _ => false

def isFetch : Call → Bool
  | .fetch _ => true
  | _ => false

def isStore : Call → Bool
  | .store _ _ => true
  | _ => false

/-- Whether a call is made with leave only. -/
def isGuarded : Call → Bool
  | .find (.space _) => false
  | .find (.resource _) => true
  | .find (.identity _) => true
  | .authorize _ _ => false
  | .fetch _ => true
  | .store _ _ => true

/-- The call looks up an identity. -/
def IsIdentityLookup (call : Call) : Prop :=
  ∃ x, call = .find (.identity x)

/-- The call looks something up. -/
def IsLookup (call : Call) : Prop :=
  ∃ lookup, call = .find lookup

/-- The call looks something up or fetches a policy. -/
def Reads : Call → Prop
  | .find _ => True
  | .fetch _ => True
  | .authorize _ _ => False
  | .store _ _ => False

theorem isAuthorize_of_reads {call : Call} (h : call.Reads) : call.isAuthorize = false := by
  cases call with
  | authorize caller space => cases h
  | _ => rfl

theorem isStore_of_reads {call : Call} (h : call.Reads) : call.isStore = false := by
  cases call with
  | store policy token => cases h
  | _ => rfl

/-- The space that a call is about, if it names one. -/
def space? : Call → Option Uuid
  | .find (.space space) => some space
  | .find (.resource space) => some space
  | .find (.identity _) => none
  | .authorize _ space => some space
  | .fetch _ => none
  | .store _ _ => none

theorem nonempty_answer (call : Call) : Nonempty (interface.Answer call) := by
  -- Every call may at least fail.
  cases call <;> exact ⟨.error Refusal.outsider.failure⟩

end Call

end Roster.Service
