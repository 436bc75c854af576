import Roster.Http.Message
import Roster.Paging
import Roster.Text.Percent

/-!
# Resources

The resources that the service answers for, the methods that each of them knows, and what is read
from a target: the parameters in its path and the page in its query.
-/

namespace Roster.Http

open Text

/-- A resource, with the parameters of its path as they are written. -/
inductive Resource where
  /-- Whether the service is up. -/
  | health
  /-- The description of the service. -/
  | description
  /-- The pages that show the description. -/
  | documentation
  /-- The members of a space. -/
  | collaborators (space : String)
  /-- A member of a space. -/
  | collaborator (space identity : String)
  deriving DecidableEq, Repr

namespace Resource

/-- The resource of a path, given by the parts between its slashes. No parameter is empty. -/
def ofParts? : List String → Option Resource
  | ["health"] => some health
  | ["v1", "api-docs", "openapi.json"] => some description
  | ["v1", "swagger"] => some documentation
  | ["v1", "collaborators", space] => if space ≠ "" then some (collaborators space) else none
  | ["v1", "collaborators", space, identity] =>
    if space ≠ "" ∧ identity ≠ "" then some (collaborator space identity) else none
  | _ => none

/-- The resource of a path. -/
def ofPath? (path : String) : Option Resource :=
  match path.toList with
  | '/' :: s => ofParts? ((s.splitOn '/').map String.ofList)
  | _ => none

/-- The methods that a resource knows. -/
def methods : Resource → List String
  | collaborators _ => ["GET", "HEAD", "POST", "DELETE"]
  | collaborator _ _ => ["POST", "DELETE"]
  | _ => ["GET", "HEAD"]

/-- The methods that a resource knows, as one text. -/
def allow (r : Resource) : String :=
  String.intercalate "," r.methods

end Resource

/-! ### Parameters -/

/-- The text that a parameter stands for. -/
def decodeParameter? (parameter : String) : Option String :=
  ofUtf8? (percentDecode (utf8 parameter))

/-- The text that a parameter of a name stands for, or the name of a parameter that stands for
none. -/
def readParameter (name parameter : String) : Except String String :=
  match decodeParameter? parameter with
  | some s => .ok s
  | none => .error name

/-- The only value of a name among names and values, if there is one; nothing at all if there are
several. -/
def onlyValue? (pairs : List (String × String)) (name : String) : Option (Option String) :=
  match pairs.filter (·.1 == name) with
  | [] => some none
  | [(_, value)] => some (some value)
  | _ => none

/-- The page that a target asks for. The limit has to be a number; any text will do for the
offset. -/
def Target.page? (t : Target) : Option PageRequest := do
  let pairs := readFormPairs (utf8 (t.query.getD ""))
  let offset ← onlyValue? pairs "page[offset]"
  match ← onlyValue? pairs "page[limit]" with
  | none => return { offset, limit := none }
  | some limit => return { offset, limit := some (← readWord? limit.toList) }

end Roster.Http
