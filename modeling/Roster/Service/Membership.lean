import Roster.Json.Shape
import Roster.Service.Lookup

/-!
# Changing the members of a space

Identities are added to a space or removed from it, one or several at a time. Nothing is read
before the caller is known to be allowed, except that a removal first makes sure that the owner is
not among those to go. All identities are checked and all changes are made to a policy that was
fetched for the purpose; only then is it stored, once and only if something changed. So a request
takes effect as a whole or not at all.
-/

namespace Roster

/-- The identities that a request names, as they are written. Gaps between them are allowed, and the
whole list may be missing. -/
structure IdentityBatch where
  /-- The identities and gaps in order. -/
  data : Option (List (Option String)) := none
  deriving DecidableEq, Repr

namespace IdentityBatch

open Json

/-- Reads a batch: a record with a list of records, each with the text of an identifier. -/
def shape : Shape IdentityBatch := fun document =>
  ((Shape.Record.defaulted "data"
    (.list (.optional (Shape.Record.required "id" .text).shape))).shape document).map fun data =>
      ⟨data⟩

/-- Reads a batch from a JSON value. -/
def ofJson? (j : Json) : Option IdentityBatch :=
  (Shape.read shape (Text.utf8 j.text)).toOption

end IdentityBatch

namespace Service

/-- Makes sure that the owner of a space is not among the identities to be removed from it. -/
def keepOwner (space : Uuid) (ids : List String) : Action Unit := do
  let found : Space ← entry .notFound (.space space) (refuse .unknownSpace)
  if ids.any fun text => Uuid.parse? text = some found.ownerId then refuse .ownerRemoved

/-- Makes sure that the caller may act on a space. -/
def ensureAllowed (caller : Option Caller) (space : Uuid) : Action Unit := do
  if !(← accept .unauthorized (← authorize caller space)) then refuse .outsider

/-- Reads the text of an identity that is to be added or removed. -/
def readIdentity (text : String) : Action Uuid :=
  match Uuid.parse? text with
  | some id => pure id
  | none => do
    Attempt.log
      { level := .error, message := "unable to convert the identity ID to uuid"
        fields := [("identity_id", text)] }
    refuse (.malformedIdentity text)

/-- Makes one change to a policy for each identity in turn, and tells whether the policy is another
one then. -/
def changeEach (change : Change) : List String → Policy × Bool → Action (Policy × Bool)
  | [], state => pure state
  | text :: rest, (policy, changed) => do
    let id ← readIdentity text
    let _ : Identity ← entry .notFound (.identity id) (refuse .unknownIdentity)
    match change.apply id policy with
    | .ok (policy, differs) => changeEach change rest (policy, changed || differs)
    | .error e => throw e.failure

/-- Changes the members of a space, if the caller is allowed to. -/
def update (change : Change) (caller : Option Caller) (space : Uuid) (ids : List String) :
    Action Unit := do
  ensureAllowed caller space
  let (policy, token) ← fetchOf space
  let (policy, changed) ← changeEach change ids (policy, false)
  if changed then
    accept .serverError (← store policy token)
    Attempt.log
      { level := .info, message := "Updated space collaborators"
        fields := [("space_id", space.text),
          ("caller", (caller.map (·.identity.text)).getD ""), ("update", change.name)] }
  else
    Attempt.log
      { level := .debug, message := "Policy unchanged", fields := [("space_id", space.text)] }

/-- Changes the members of a space, which is given as text. The place is where failures are said to
have passed through. -/
def alter (change : Change) (place : String) (caller : Option Caller) (space : String)
    (ids : List String) : Action Unit :=
  match change with
  | .add => Attempt.through place do
    update .add caller (← readId .malformedSpace space) ids
  | .remove => do
    -- A text that names no space is refused before the place is reached.
    let space ← readId .malformedSpace space
    Attempt.through place do
      keepOwner space ids
      update .remove caller space ids

/-- Adds an identity to a space. -/
def add (caller : Option Caller) (space identity : String) : Action Unit :=
  alter .add "s:add_collaborator" caller space [identity]

/-- Removes an identity from a space. -/
def remove (caller : Option Caller) (space identity : String) : Action Unit :=
  alter .remove "s:remove_collaborator" caller space [identity]

/-- Changes the members of a space by the identities of a batch. Without a list of them there is
nothing to do. -/
def alterAll (change : Change) (place : String) (caller : Option Caller) (space : String)
    (batch : IdentityBatch) : Action Unit :=
  match batch.data with
  | none => pure ()
  | some entries => alter change place caller space (entries.filterMap id)

/-- Adds the identities of a batch to a space. -/
def addAll (caller : Option Caller) (space : String) (batch : IdentityBatch) : Action Unit :=
  alterAll .add "s:add_collaborators" caller space batch

/-- Removes the identities of a batch from a space. -/
def removeAll (caller : Option Caller) (space : String) (batch : IdentityBatch) : Action Unit :=
  alterAll .remove "s:remove_collaborators" caller space batch

end Service

end Roster
