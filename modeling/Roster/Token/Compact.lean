import Roster.Text.Base64
import Roster.Token.Header

/-!
# Tokens

A token is three parts with dots between them: a header, claims and a signature, each in base 64.
What is signed is the text of the first two parts. The last two dots divide the parts.
-/

namespace Roster.Token

open Text

/-- A token. -/
structure Compact where
  /-- What is signed. -/
  signed : List Char
  /-- The first part. -/
  header : List Char
  /-- The second part. -/
  claims : List Char
  /-- The third part. -/
  signature : List Char
  deriving DecidableEq, Repr

namespace Compact

/-- Splits a text at its last dot. -/
def splitAtLastDot (s : List Char) : Option (List Char × List Char) :=
  match s.reverse.span (· ≠ '.') with
  | (behind, _ :: before) => some (before.reverse, behind.reverse)
  | _ => none

/-- Reads the parts of a token. -/
def ofChars? (s : List Char) : Option Compact := do
  let (signed, signature) ← splitAtLastDot s
  let (header, claims) ← splitAtLastDot signed
  return { signed, header, claims, signature }

/-- Reads the parts of a token. -/
def parse? (s : String) : Option Compact :=
  ofChars? s.toList

/-- The bytes of what is signed. -/
def message (t : Compact) : Bytes :=
  utf8Chars t.signed

/-- Reads a part as JSON of a shape. -/
def read? {α : Type} (shape : Json.Shape α) (part : List Char) : Option α :=
  (Base64.ofAddress? part).bind fun bytes => (Json.Shape.read shape bytes).toOption

/-- The header of a token. -/
def header? (t : Compact) : Option Header :=
  read? Header.shape t.header

end Compact

end Roster.Token
