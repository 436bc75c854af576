import Roster.Json.Shape

/-!
# Token headers

The first part of a token says how it is signed. Of its members only the algorithm is used, but
all that are known have to be of their kind: texts for the most part, certificates as a list of
them, and a key with the parameters of its type.
-/

namespace Roster.Token

open Json

/-- The header of a token. -/
structure Header where
  /-- The algorithm of the signature. -/
  algorithm : String
  deriving DecidableEq, Repr

namespace Header

/-- The algorithms that tokens may be signed with. -/
def algorithms : List String :=
  ["HS256", "HS384", "HS512", "ES256", "ES384", "RS256", "RS384", "RS512", "PS256", "PS384",
    "PS512", "EdDSA"]

/-- Reads one of several words. A word may also stand as the only name of an object, with nothing
for its value. -/
def word (words : List String) : Shape String
  | .text (.ok s) => if words.contains s then .ok s else .error .mismatched
  | .object [(some s, .null)] true => if words.contains s then .ok s else .error .mismatched
  | d => .error (Shape.mismatch d)

/-- A header as it is read. -/
structure Draft where
  /-- The members read so far. -/
  seen : List String := []
  /-- The algorithm, once it is read. -/
  algorithm : Option String := none

/-- A member that only has to be of a kind. -/
def checked {α : Type} (name : String) (shape : Shape α) : Shape.Slot Draft where
  name
  isFilled draft := draft.seen.contains name
  fill draft d := (shape d).map fun _ => { draft with seen := name :: draft.seen }

/-- The member that names the algorithm. -/
def algorithmSlot : Shape.Slot Draft where
  name := "alg"
  isFilled draft := draft.algorithm.isSome
  fill draft d := (word algorithms d).map fun s => { draft with algorithm := some s }

/-! ### Keys -/

/-- The algorithms that keys may be for. -/
def keyAlgorithms : List String :=
  algorithms ++ ["RSA1_5", "RSA-OAEP", "RSA-OAEP-256"]

/-- The curves that keys may be on. -/
def curves : List String := ["P-256", "P-384", "P-521", "Ed25519"]

/-- Whether a value is a text. -/
def isText : Json → Bool
  | .string _ => true
  | _ => false

/-- Whether a value is a list of texts. -/
def areTexts : Json → Bool
  | .array items => items.all isText
  | _ => false

/-- Whether a value is one of several words, or an object whose only name is one of them, with one
of several values for nothing. -/
def isWord (words : List String) (isNothing : Json → Bool) : Json → Bool
  | .string s => words.contains s
  | .object [(s, value)] => words.contains s && isNothing value
  | _ => false

/-- Whether a value is the absent one. -/
def isNull : Json → Bool
  | .null => true
  | _ => false

/-- Whether a value is the absent one or an object without members. -/
def isVoid : Json → Bool
  | .null => true
  | .object [] => true
  | _ => false

/-- The parameters that all keys have in common, with their kinds. -/
def commonParameters : List (String × (Json → Bool)) :=
  [("use", isText), ("key_ops", areTexts), ("alg", isWord keyAlgorithms isVoid), ("kid", isText),
    ("x5u", isText), ("x5c", areTexts), ("x5t", isText), ("x5t#S256", isText)]

/-- The types of keys, each with its parameters and their kinds. -/
def keyTypes : List (List (String × (Json → Bool))) :=
  [[("kty", isWord ["EC"] isNull), ("crv", isWord curves isNull), ("x", isText), ("y", isText)],
    [("kty", isWord ["RSA"] isNull), ("n", isText), ("e", isText)],
    [("kty", isWord ["oct"] isNull), ("k", isText)],
    [("kty", isWord ["OKP"] isNull), ("crv", isWord curves isNull), ("x", isText)]]

/-- Whether members are those of a key: the common parameters are of their kind or missing, and
those of one type of keys are all there. Parameters of other types do not matter. -/
def isKey (members : List (String × Json)) : Bool :=
  (commonParameters.all fun (name, isKind) =>
    match Json.only? members name with
    | some none => true
    | some (some value) => isNull value || isKind value
    | none => false) &&
  keyTypes.any fun parameters => parameters.all fun (name, isKind) =>
    match Json.only? members name with
    | some (some value) => isKind value
    | _ => false

/-- Reads a key: an object with the parameters of its type. -/
def key : Shape Unit
  | .object members closed =>
    match Document.keep (.object members closed) with
    | .ok value => if isKey value.members then .ok () else .error .mismatched
    | .error _ => .error .malformed
  | d => .error (Shape.mismatch d)

/-! ### Headers -/

/-- Reads a header. -/
def shape : Shape Header :=
  Shape.Record.shape
    { slots := [checked "typ" (.optional .text), algorithmSlot, checked "cty" (.optional .text),
        checked "jku" (.optional .text), checked "jwk" (.optional key),
        checked "kid" (.optional .text), checked "x5u" (.optional .text),
        checked "x5c" (.optional (.list .text)), checked "x5t" (.optional .text),
        checked "x5t#S256" (.optional .text)]
      start := ({} : Draft)
      finish := fun draft => draft.algorithm.map Header.mk
      finishShort := fun _ => none }

end Header

end Roster.Token
