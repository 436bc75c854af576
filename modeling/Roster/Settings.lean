/-!
# Settings

What the service learns from its environment: the address it listens on, its database, and the realm
of the policy server with the endpoints derived from it. A variable that is set counts even if it is
empty.
-/

namespace Roster

/-- The variables that are set, with their values. -/
abbrev Environment := List (String × String)

namespace Environment

/-- The value of a variable, or another one if the variable is not set. -/
def getD (env : Environment) (name fallback : String) : String :=
  (env.lookup name).getD fallback

/-- The address that the service listens on. -/
def hostAddress (env : Environment) : String :=
  "[::]:" ++ env.getD "PORT" "8080"

end Environment

/-- How the database is reached. -/
structure DatabaseSettings where
  /-- The address. -/
  url : String
  /-- The name of the user. -/
  username : String
  /-- The user's password. -/
  password : String
  deriving DecidableEq, Repr

/-- The database settings of an environment. -/
def DatabaseSettings.ofEnvironment (env : Environment) : DatabaseSettings where
  url := env.getD "DATABASE_URL" ""
  username := env.getD "DATABASE_USERNAME" ""
  password := env.getD "DATABASE_PASSWORD" ""

/-- The realm of the policy server and the service's account there. -/
structure RealmSettings where
  /-- The address of the server, without a slash at its end. -/
  url : String := ""
  /-- The name of the realm. -/
  realm : String := ""
  /-- The public identifier of the account, which entitlements are asked for with. -/
  clientId : String := ""
  /-- The internal identifier of the account, which policies are kept under. -/
  clientUuid : String := ""
  /-- The account's secret. -/
  clientSecret : String := ""
  /-- The key that the realm signs its tokens with, as PEM text. -/
  publicKey : String := ""
  /-- The audience that tokens have to name; empty if any will do. -/
  audience : String := ""
  deriving DecidableEq, Repr

namespace RealmSettings

/-- An address without the slashes at its end. -/
def withoutSlashes (url : String) : String :=
  String.ofList (url.toList.reverse.dropWhile (· == '/')).reverse

/-- The realm settings of an environment. -/
def ofEnvironment (env : Environment) : RealmSettings where
  url := withoutSlashes (env.getD "KEYCLOAK_URL" "")
  realm := env.getD "KEYCLOAK_REALM" "fabric8"
  clientId := env.getD "KEYCLOAK_CLIENT_ID" ""
  clientUuid := env.getD "KEYCLOAK_CLIENT_UUID" ""
  clientSecret := env.getD "KEYCLOAK_CLIENT_SECRET" ""
  publicKey := env.getD "KEYCLOAK_PUBLIC_KEY" ""
  audience := env.getD "KEYCLOAK_AUDIENCE" ""

/-- Where the service's own token is asked for. -/
def tokenEndpoint (s : RealmSettings) : String :=
  s.url ++ "/auth/realms/" ++ s.realm ++ "/protocol/openid-connect/token"

/-- Where entitlements of a caller are asked for. -/
def entitlementEndpoint (s : RealmSettings) : String :=
  s.url ++ "/auth/realms/" ++ s.realm ++ "/authz/entitlement/" ++ s.clientId

/-- Where a policy is read and written. -/
def policyEndpoint (s : RealmSettings) (policyId : String) : String :=
  s.url ++ "/auth/admin/realms/" ++ s.realm ++ "/clients/" ++ s.clientUuid ++
    "/authz/resource-server/policy/" ++ policyId

end RealmSettings

end Roster
