import Roster.Json.Basic

/-!
# The description of the service

What the service offers, as an OpenAPI document: the operations on its resources, the schemas of
what they take and give, and how callers are told apart.
-/

namespace Roster.Http.Description

/-- A text as a JSON value. -/
def str (s : String) : Json := .string s

/-! ### Schemas -/

/-- A reference to a schema. -/
def reference (name : String) : Json :=
  .object [("$ref", str ("#/components/schemas/" ++ name))]

/-- The schema of values of a type. -/
def typed (type : String) : Json :=
  .object [("type", str type)]

/-- The schema of values of a type that may be missing. -/
def nullable (type : String) (more : List (String × Json)) : Json :=
  .object (("type", .array [str type, str "null"]) :: more)

/-- The schema of natural numbers. -/
def natural (more : List (String × Json)) : Json :=
  .object ([("type", str "integer"), ("minimum", .nat 0)] ++ more)

/-- The schema of lists. -/
def listOf (item : Json) : Json :=
  .object [("type", str "array"), ("items", item)]

/-- The schema of objects. -/
def record (required : List String) (properties : List (String × Json))
    (more : List (String × Json)) : Json :=
  .object ([("type", str "object")] ++ more ++
    (if required.isEmpty then [] else [("required", .array (required.map str))]) ++
    [("properties", .object properties)])

/-- What a schema is about. -/
def about (text : String) : String × Json := ("description", str text)

/-- The schema of identities: times and texts, all of them there. -/
def identitySchema : Json :=
  let times := ["created_at", "updated_at"]
  let names := ["id", "created_at", "updated_at", "username", "provider_type", "user_id",
    "full_name", "email", "company", "image_url", "bio", "url"]
  record names (names.map fun name =>
    (name, if times.contains name then reference "Datetime" else typed "string")) []

/-- The schemas of what operations take and give. -/
def schemas : List (String × Json) := [
  ("EmptyResponse", record ["status", "message"]
    [("message", typed "string"), ("status", natural [("format", str "int32")])] []),
  ("PagingLinks", record ["first", "last"]
    [("first", typed "string"), ("last", typed "string"), ("next", nullable "string" []),
      ("prev", nullable "string" [])] []),
  ("Datetime", .object [("type", str "string"), ("format", str "date-time")]),
  ("IdentityResponse", identitySchema),
  ("UpdateUserId", record ["id"] [("id", typed "string")]
    [about ("Identity to add to or remove from a space\n\n" ++
      "The id is kept as received; a malformed value is rejected with a\n" ++
      "bad request once the batch is processed.")]),
  ("UpdateUserIdList", record []
    [("data", nullable "array"
      [("items", .object [("oneOf", .array [typed "null", reference "UpdateUserId"])])])]
    [about "Batch payload, `null` entries are skipped"]),
  ("CollaboratorListMeta", record ["totalCount"]
    [("totalCount",
      natural [about "Members in the space policy, regardless of the requested page"])] []),
  ("CollaboratorListResponse", record ["data", "meta", "links"]
    [("data", listOf (reference "IdentityResponse")), ("links", reference "PagingLinks"),
      ("meta", reference "CollaboratorListMeta")] [])]

/-! ### Operations -/

/-- JSON content of a schema. -/
def content (schema : String) : String × Json :=
  ("content", .object [("application/json", .object [("schema", reference schema)])])

/-- A parameter in the path. -/
def pathParameter (name text : String) : Json :=
  .object [("name", str name), ("in", str "path"), about text, ("required", .bool true),
    ("schema", typed "string")]

/-- A parameter in the query. -/
def queryParameter (name : String) (schema : Json) : Json :=
  .object [("name", str name), ("in", str "query"), ("required", .bool false), ("schema", schema)]

/-- An operation: what it belongs to, its name, its response, and what else there is to it. -/
def operation (tag name : String) (response : List (String × Json))
    (more : List (String × Json)) : Json :=
  .object ([("tags", .array [str tag]), ("operationId", str name)] ++ more ++
    [("responses", .object [("200", .object response)])])

/-- The parameter for a space. -/
def spaceParameter : Json := pathParameter "space_id" "Space id"

/-- An operation that changes the members of a space. -/
def change (name : String) (parameters : List Json) (more : List (String × Json)) : Json :=
  operation "Collaborators" name [about "", content "EmptyResponse"]
    ([("parameters", .array parameters)] ++ more ++
      [("security", .array [.object [("api_key", .array [])]])])

/-- The payload of an operation on many identities. -/
def batch : String × Json :=
  ("requestBody", .object [content "UpdateUserIdList", ("required", .bool true)])

/-- The operations on the members of a space. -/
def collaborators : Json :=
  .object [
    ("get", operation "Collaborators" "list_collaborators"
      [about "", content "CollaboratorListResponse"]
      [("parameters", .array [spaceParameter,
        queryParameter "page[offset]" (nullable "string" []),
        queryParameter "page[limit]" (nullable "integer" [("format", str "int64")])])]),
    ("post", change "add_many_collaborators" [spaceParameter] [batch]),
    ("delete", change "remove_many_collaborators" [spaceParameter] [batch])]

/-- The operations on a member of a space. -/
def collaborator : Json :=
  let parameters (text : String) := [spaceParameter, pathParameter "identity_id" text]
  .object [("post", change "add_collaborator" (parameters "Identity to add") []),
    ("delete", change "remove_collaborator" (parameters "Identity to remove") [])]

/-- The operation on the health of the service. -/
def health : Json :=
  .object [("get", operation "Health" "health" [about "Health check API"] [])]

/-! ### The document -/

/-- What the service is. -/
def info : Json :=
  .object [("title", str "Space Collaborators API Documentation"),
    about "Manage the collaborators of a space through its Keycloak policy",
    ("license", .object [("name", str "")]), ("version", str "0.1.0")]

/-- How callers are told apart. -/
def securitySchemes : Json :=
  .object [("api_key", .object [("type", str "apiKey"), ("in", str "header"),
    ("name", str "Authorization")])]

/-- The document. -/
def document : Json :=
  .object [("openapi", str "3.1.0"), ("info", info),
    ("paths", .object [("/health", health),
      ("/v1/collaborators/\x7bspace_id\x7d", collaborators),
      ("/v1/collaborators/\x7bspace_id\x7d/\x7bidentity_id\x7d", collaborator)]),
    ("components", .object [("schemas", .object schemas), ("securitySchemes", securitySchemes)])]

end Roster.Http.Description
