import Roster.Http.Authentication
import Roster.Http.Description
import Roster.Http.Payload
import Roster.Http.Resource
import Roster.Http.Status
import Roster.Service.Listing
import Roster.Service.Membership

/-!
# Answering requests

Every request is answered with one response, which carries the identifier that the request is
given. The members of a space are listed for everybody; they are changed only for a caller who is
known, and who the caller is gets settled before anything else of the request is looked at, the
method included. A request for the head of a resource is answered as one for the resource, without
the body.
-/

namespace Roster.Http

open Service

/-- What the service is set up with, and the time of a request. -/
structure Setting where
  /-- The realm that callers belong to. -/
  realm : Token.Realm
  /-- The second since the start of 1970. -/
  now : Nat

/-- A program that answers a request. -/
abbrev Handling := Program interface Response

/-- Answers with the report of a failure. -/
def report (requestId : String) (f : Failure) : Handling := do
  Program.log (f.event requestId)
  return f.response

/-- Answers with what an action comes to. -/
def conclude {α : Type} (requestId : String) (render : α → Response) (action : Action α) :
    Handling := do
  match ← action.run with
  | .ok value => return render value
  | .error f => report requestId f

/-- There is no such resource. -/
def nothingThere : Response := { status := 404 }

/-- The resource does not know the method. -/
def unknownMethod (r : Resource) : Response := { status := 405, allow := some r.allow }

/-- A parameter of the path stands for no text. -/
def unreadableParameter (name : String) : Response :=
  .plain 400 ("Invalid URL: Invalid UTF-8 in `" ++ name ++ "`")

/-- The query asks for no page. -/
def unreadableQuery : Response :=
  .plain 400 "Failed to deserialize query string"

/-- The members have been changed as asked. -/
def updated : Response :=
  .message 200 "Space collaborators updated"

/-- Answers a request for the members of a space. -/
def answerListing (requestId : String) (space : String) (target : Target) : Handling :=
  match readParameter "space_id" space, target.page? with
  | .error name, _ => return unreadableParameter name
  | _, none => return unreadableQuery
  | .ok space, some page =>
    conclude requestId (fun listing => .json 200 listing.toJson) (list space page target.path)

/-- Answers a request to change the members of a space by the identities in its payload. -/
def answerBatch (requestId : String) (change : Change) (caller : Caller) (space : String)
    (request : Request) : Handling :=
  match readParameter "space_id" space with
  | .error name => return unreadableParameter name
  | .ok space =>
    match Payload.read? IdentityBatch.shape [] request with
    | .error e => report requestId e.failure
    | .ok batch =>
      let batch := batch.getD {}
      conclude requestId (fun _ => updated) <| match change with
        | .add => addAll (some caller) space batch
        | .remove => removeAll (some caller) space batch

/-- Answers a request to change the members of a space by one identity. -/
def answerSingle (requestId : String) (change : Change) (caller : Caller)
    (space identity : String) : Handling :=
  match readParameter "space_id" space, readParameter "identity_id" identity with
  | .error name, _ => return unreadableParameter name
  | _, .error name => return unreadableParameter name
  | .ok space, .ok identity =>
    conclude requestId (fun _ => updated) <| match change with
      | .add => add (some caller) space identity
      | .remove => remove (some caller) space identity

/-- The change that a method stands for. -/
def changeOf? (method : String) : Option Change :=
  if method = "POST" then some .add else if method = "DELETE" then some .remove else none

/-- Whether a method asks for a resource as it is. -/
def isRead (method : String) : Bool :=
  method = "GET" || method = "HEAD"

/-- Answers a request that needs a known caller. Where the caller is unknown and the method too, the
response also tells the methods. -/
def answerCaller (setting : Setting) (requestId : String) (resource : Resource)
    (request : Request) (answer : Change → Caller → Handling) : Handling :=
  match changeOf? request.method, request.caller setting.realm setting.now with
  | some change, .ok caller => answer change caller
  | some _, .error a => report requestId a.failure
  | none, .ok _ => return unknownMethod resource
  | none, .error a => do
    return { ← report requestId a.failure with allow := some resource.allow }

/-- Answers a request for a resource. -/
def answerResource (setting : Setting) (requestId : String) (resource : Resource)
    (request : Request) : Handling :=
  match resource with
  | .collaborators space =>
    if isRead request.method then answerListing requestId space request.target
    else answerCaller setting requestId resource request fun change caller =>
      answerBatch requestId change caller space request
  | .collaborator space identity =>
    answerCaller setting requestId resource request fun change caller =>
      answerSingle requestId change caller space identity
  | .health =>
    return if isRead request.method then .plain 200 "Server is up and running"
      else unknownMethod resource
  | .description =>
    return if isRead request.method then .json 200 Description.document
      else unknownMethod resource
  | .documentation =>
    return if isRead request.method then { status := 303 } else unknownMethod resource

/-- Answers a request, the method's wish for a body aside. -/
def answerTarget (setting : Setting) (requestId : String) (request : Request) : Handling :=
  match Resource.ofPath? request.target.path with
  | some resource => answerResource setting requestId resource request
  | none => return nothingThere

/-- The event of a request that comes in. -/
def arrival (request : Request) : Event where
  level := .info
  message := request.method ++ ": " ++ request.target.text
  fields := []

/-- The event of a response that goes out. -/
def departure (response : Response) : Event where
  level := if response.status = 200 then .info else if response.status = 500 then .error else .warn
  message := "Completed with status " ++ Status.text response.status
  fields := []

/-- Answers a request. -/
def serve (setting : Setting) (requestId : String) (request : Request) : Handling := do
  Program.log (arrival request)
  let response ← answerTarget setting requestId request
  Program.log (departure response)
  return { response with
    requestId := some requestId
    body := if request.method = "HEAD" then "" else response.body }

end Roster.Http
