import Roster.Text.Utf8

/-!
# Bytes in base 64

Bytes as text of 64 letters, each of them six bits. Only the one text that writing produces is read:
the bits behind the last byte have to be zero. Of the two alphabets one is for addresses and goes
without padding, the other one is for mail and is padded with equality signs to groups of four.
-/

namespace Roster.Text.Base64

/-- The value of a letter or digit. -/
def value? (c : Char) : Option Nat :=
  if 'A' ≤ c ∧ c ≤ 'Z' then some (c.toNat - 0x41)
  else if 'a' ≤ c ∧ c ≤ 'z' then some (c.toNat - 0x61 + 26)
  else if '0' ≤ c ∧ c ≤ '9' then some (c.toNat - 0x30 + 52)
  else none

/-- The value of a character of the alphabet for addresses. -/
def addressValue? (c : Char) : Option Nat :=
  if c = '-' then some 62 else if c = '_' then some 63 else value? c

/-- The value of a character of the alphabet for mail. -/
def mailValue? (c : Char) : Option Nat :=
  if c = '+' then some 62 else if c = '/' then some 63 else value? c

/-- The bytes of groups of six bits. -/
def bytes? : List Nat → Option Bytes
  | a :: b :: c :: d :: rest =>
    (bytes? rest).map fun bytes =>
      UInt8.ofNat (a * 4 + b / 16) :: UInt8.ofNat (b % 16 * 16 + c / 4) ::
        UInt8.ofNat (c % 4 * 64 + d) :: bytes
  | [a, b, c] =>
    if c % 4 = 0 then
      some [UInt8.ofNat (a * 4 + b / 16), UInt8.ofNat (b % 16 * 16 + c / 4)]
    else none
  | [a, b] => if b % 16 = 0 then some [UInt8.ofNat (a * 4 + b / 16)] else none
  | [_] => none
  | [] => some []

/-- Reads bytes in the alphabet for addresses. -/
def ofAddress? (s : List Char) : Option Bytes :=
  (s.mapM addressValue?).bind bytes?

/-- Reads bytes in the alphabet for mail. -/
def ofMail? (s : List Char) : Option Bytes :=
  let body := s.takeWhile (· ≠ '=')
  let padding := s.dropWhile (· ≠ '=')
  if padding.all (· = '=') ∧ padding.length = (4 - body.length % 4) % 4 then
    (body.mapM mailValue?).bind bytes?
  else none

example : ofMail? "Zm8=".toList = some [0x66, 0x6F] := by decide +kernel

example : ofMail? "Zm9=".toList = none := by decide +kernel

example : ofAddress? "_-8".toList = some [0xFF, 0xEF] := by decide +kernel

end Roster.Text.Base64
