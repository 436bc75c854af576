import Roster.Memory.PolicyStore
import Roster.Service.Call

/-!
# A backend in memory

A backend answers the service's calls from a directory, a policy store and a fixed answer to whether
callers may act on spaces. Any of the calls can be made to fail. No answer depends on who the caller
is.
-/

namespace Roster

/-- The calls that are made to fail, each with its failure. -/
structure Faults where
  /-- Looking up identities. -/
  identity : Option Failure := none
  /-- Looking up spaces. -/
  space : Option Failure := none
  /-- Looking up resources. -/
  resource : Option Failure := none
  /-- Asking whether a caller may act on a space. -/
  authorize : Option Failure := none
  /-- Fetching policies. -/
  fetch : Option Failure := none
  /-- Storing policies. -/
  store : Option Failure := none

/-- The failure of looking something up. -/
def Faults.find (f : Faults) : Lookup → Option Failure
  | .identity _ => f.identity
  | .space _ => f.space
  | .resource _ => f.resource

/-- What the service's calls are answered from. -/
structure Backend where
  /-- The entries that can be looked up. -/
  directory : Directory := {}
  /-- The policies. -/
  store : PolicyStore := {}
  /-- Whether callers may act on spaces. -/
  verdict : Result Bool := .ok true
  /-- The calls that fail. -/
  faults : Faults := {}

namespace Backend

/-- A result, unless the call is made to fail. -/
def failingWith {α : Type} (fault : Option Failure) (r : Result α) : Result α :=
  match fault with
  | some f => .error f
  | none => r

/-- Looks an entry up. -/
def find (b : Backend) (l : Lookup) : Result (Option l.Entry) :=
  failingWith (b.faults.find l) (.ok (b.directory.find? l))

/-- Answers a call of the service. -/
def answer : Handler Service.interface Backend
  | .find l, b => (b.find l, b)
  | .authorize _ _, b => (failingWith b.faults.authorize b.verdict, b)
  | .fetch policyId, b =>
    match b.faults.fetch with
    | some f => (.error f, b)
    | none =>
      let (result, store) := b.store.fetch policyId
      (result, { b with store })
  | .store policy token, b =>
    match b.faults.store with
    | some f => (.error f, b)
    | none =>
      let (result, store) := b.store.store policy token
      (result, { b with store })

/-- Runs an action of the service. -/
def run {α : Type} (b : Backend) (action : Service.Action α) :
    Run Service.interface Backend (Result α) :=
  Program.run answer action.run b

end Backend

end Roster
