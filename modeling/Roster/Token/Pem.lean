import Roster.Text.Base64
import Roster.Text.Blank
import Roster.Text.Split

/-!
# Armoured bytes

Bytes as text in base 64 between two lines that name what they are. What stands before the first
line and behind the last one does not matter, and neither do blanks in between. Lines of headers may
come first; an empty line divides them from the rest.
-/

namespace Roster.Token

open Text

/-- Armoured bytes and their label. -/
structure Pem where
  /-- What the bytes are. -/
  label : String
  /-- The bytes. -/
  content : Bytes
  deriving DecidableEq

namespace Pem

/-- Whether a character is skipped behind the opening line. -/
def isGap (c : Char) : Bool :=
  c == ' ' || c == '\t' || c == '\n' || c == '\r'

/-- The headers in front of an empty line, and what is behind it. -/
def splitHeaders (s : List Char) : List Char × List Char :=
  (splitAtMark "\n\n".toList s <|> splitAtMark "\r\n\r\n".toList s).getD ([], s)

/-- Reads the first armoured bytes in a text. -/
def ofChars? (s : List Char) : Option Pem := do
  let (_, s) ← splitAtMark "-----BEGIN ".toList s
  let (label, s) ← splitAtMark "-----".toList s
  let (body, s) ← splitAtMark "-----END ".toList (s.dropWhile isGap)
  let (closing, _) ← splitAtMark "-----".toList s
  let (headers, armour) := splitHeaders body
  let content ← Base64.ofMail? (armour.filter (!isBlank ·))
  if label ≠ [] ∧ label = closing ∧ (lines headers).all (·.contains ':') then
    some ⟨String.ofList label, content⟩
  else none

/-- Reads the first armoured bytes in a text. -/
def parse? (s : String) : Option Pem :=
  ofChars? s.toList

end Pem

end Roster.Token
