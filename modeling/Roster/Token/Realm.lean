import Roster.Failure
import Roster.Uuid
import Roster.Token.Claims
import Roster.Token.Compact
import Roster.Token.PublicKey

/-!
# Tokens of a realm

A realm signs the tokens of its users with its key. A token counts if it has the realm's
signature, if its claims hold, and if it names a subject; the subject of a user is the text of an
identity.
-/

namespace Roster.Token

open Text

/-- What is known of the realm that tokens come from. -/
structure Realm where
  /-- The bytes of the realm's key. -/
  key : Bytes
  /-- The audience that tokens have to be for; none if any will do. -/
  audience : Option String
  deriving DecidableEq

/-- Why a token does not count. -/
inductive Rejection where
  /-- The realm's key cannot be read. -/
  | unusableKey
  /-- The token is not good. -/
  | invalidToken
  /-- The subject of the token is no identity. -/
  | unknownSubject
  deriving DecidableEq, Repr

/-- The failure that a rejection is. -/
def Rejection.failure : Rejection → Failure
  | unusableKey => { kind := .serverError, message := "Failed to init decoding pem" }
  | invalidToken => { kind := .unauthorized, message := "Invalid token" }
  | unknownSubject => { kind := .unauthorized, message := "Invalid token subject" }

/-- The subject of a token that counts. -/
structure Subject where
  /-- The text of the subject. -/
  text : String
  deriving DecidableEq, Repr

/-- The identity that a subject is. -/
def Subject.identity (s : Subject) : Except Rejection Uuid :=
  match Uuid.parse? s.text with
  | some id => .ok id
  | none => .error .unknownSubject

namespace Realm

/-- The realm with a key, given as text, and an audience, empty if any will do. -/
def ofText (key audience : String) : Except Rejection Realm :=
  match PublicKey.bytesOfText? key with
  | some key => .ok ⟨key, if audience.isEmpty then none else some audience⟩
  | none => .error .unusableKey

/-- Whether a token has the realm's signature. -/
def signs (r : Realm) (t : Compact) : Bool :=
  match PublicKey.ofBytes? r.key, Base64.ofAddress? t.signature with
  | some key, some signature => key.verifies t.message signature
  | _, _ => false

/-- The algorithm that the realm signs with. -/
def algorithm : String := "RS256"

/-- The shape of claims that name a subject. -/
def subjectShape : Json.Shape String :=
  (Json.Shape.Record.required "sub" .text).shape

/-- The subject and the claims of a token with the realm's signature. -/
def claims? (r : Realm) (t : Compact) : Option (Subject × Claims) := do
  let header ← t.header?
  if header.algorithm = algorithm ∧ r.signs t then
    let subject ← Compact.read? subjectShape t.claims
    let claims ← Compact.read? Claims.shape t.claims
    return (⟨subject⟩, claims)
  else none

/-- The subject of a token that counts at a second. -/
def accept? (r : Realm) (now : Nat) (token : String) : Option Subject := do
  let t ← Compact.parse? token
  let (subject, claims) ← r.claims? t
  if claims.hold now r.audience then some subject else none

/-- The subject of a token that has to count at a second. -/
def accept (r : Realm) (now : Nat) (token : String) : Except Rejection Subject :=
  match r.accept? now token with
  | some subject => .ok subject
  | none => .error .invalidToken

end Realm

end Roster.Token
