import Roster.Text.Utf8

/-!
# Percent encoding

A byte as `%` and two hexadecimal digits, and the form encoding that adds a plus sign for a space.
A percent sign that two hexadecimal digits do not follow stands for itself.
-/

namespace Roster.Text

/-- The value of a hexadecimal digit of either case. -/
def hexValue? (b : UInt8) : Option UInt8 :=
  if 0x30 ≤ b && b ≤ 0x39 then some (b - 0x30)
  else if 0x41 ≤ b && b ≤ 0x46 then some (b - 0x37)
  else if 0x61 ≤ b && b ≤ 0x66 then some (b - 0x57)
  else none

/-- The upper-case hexadecimal digit of a value below sixteen. -/
def upperHex (v : UInt8) : UInt8 :=
  if v < 10 then 0x30 + v else 0x37 + v

/-- Bytes with every escape replaced by the byte it names. -/
def percentDecode : Bytes → Bytes
  | 0x25 :: a :: b :: rest =>
    match hexValue? a, hexValue? b with
    | some x, some y => (x * 16 + y) :: percentDecode rest
    | _, _ => 0x25 :: percentDecode (a :: b :: rest)
  | b :: rest => b :: percentDecode rest
  | [] => []

/-- The escape of a byte. -/
def escape (b : UInt8) : Bytes :=
  [0x25, upperHex (b / 16), upperHex (b % 16)]

/-- Bytes with every byte outside a class escaped. -/
def percentEncode (kept : UInt8 → Bool) (bytes : Bytes) : Bytes :=
  bytes.flatMap fun b => if kept b then [b] else escape b

/-! ### Form encoding -/

/-- Whether a byte is an ASCII letter or digit. -/
def isAsciiAlphanumeric (b : UInt8) : Bool :=
  (0x30 ≤ b && b ≤ 0x39) || (0x41 ≤ b && b ≤ 0x5A) || (0x61 ≤ b && b ≤ 0x7A)

/-- The bytes that a form leaves as they are: letters, digits, `*`, `-`, `.` and `_`. -/
def isFormByte (b : UInt8) : Bool :=
  isAsciiAlphanumeric b || b == 0x2A || b == 0x2D || b == 0x2E || b == 0x5F

/-- The form encoding of a text. -/
def formEncode (s : String) : Bytes :=
  (utf8 s).flatMap fun b =>
    if isFormByte b then [b] else if b == 0x20 then [0x2B] else escape b

/-- The text that a form-encoded name or value stands for. -/
def formDecode (bytes : Bytes) : String :=
  ofUtf8Lossy (percentDecode (bytes.map fun b => if b == 0x2B then 0x20 else b))

/-- The form encoding of names and values, joined by `=` and `&`. -/
def formPairs (pairs : List (String × String)) : Bytes :=
  List.intercalate [0x26] <| pairs.map fun (name, value) =>
    formEncode name ++ 0x3D :: formEncode value

/-- The names and values of a form-encoded text. Empty parts between ampersands name nothing; a part
without `=` has the empty value. -/
def readFormPairs (bytes : Bytes) : List (String × String) :=
  ((bytes.splitOn 0x26).filter (· ≠ [])).map fun part =>
    (formDecode (part.takeWhile (· ≠ 0x3D)), formDecode ((part.dropWhile (· ≠ 0x3D)).drop 1))

end Roster.Text
