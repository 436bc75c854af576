/-!
# Bytes and characters

A text as its UTF-8 bytes, and bytes read back as characters. Each longest run of bytes that
starts a character without completing it reads as one missing character: a strict reader refuses
it, a lenient one writes a replacement for it.
-/

namespace Roster.Text

/-- A sequence of bytes. -/
abbrev Bytes := List UInt8

/-- The UTF-8 bytes of characters. -/
def utf8Chars (s : List Char) : Bytes :=
  s.flatMap String.utf8EncodeChar

/-- The UTF-8 bytes of a text. -/
def utf8 (s : String) : Bytes :=
  utf8Chars s.toList

/-! ### Reading -/

/-- Where a reader stands: between two characters, or inside one that still owes some bytes, the
next of which lies between two bounds. -/
inductive Pending where
  /-- Between two characters. -/
  | between
  /-- Inside a character: how many more bytes after the next one, the bounds of the next byte, and
  the bits read so far. -/
  | inside (more : Nat) (least greatest : UInt8) (bits : Nat)
  deriving DecidableEq

/-- Reads a byte between two characters: the character that is complete or missing then, if one is,
and where the reader stands. -/
def Pending.start (b : UInt8) : List (Option Char) × Pending :=
  let n := b.toNat
  if n < 0x80 then ([some (Char.ofNat n)], .between)
  -- The bounds of the next byte keep out spellings that are too long, surrogates, and numbers above
  -- those of all characters.
  else if 0xC2 ≤ n && n ≤ 0xDF then ([], .inside 0 0x80 0xBF (n - 0xC0))
  else if n == 0xE0 then ([], .inside 1 0xA0 0xBF 0)
  else if n == 0xED then ([], .inside 1 0x80 0x9F 0xD)
  else if 0xE1 ≤ n && n ≤ 0xEF then ([], .inside 1 0x80 0xBF (n - 0xE0))
  else if n == 0xF0 then ([], .inside 2 0x90 0xBF 0)
  else if 0xF1 ≤ n && n ≤ 0xF3 then ([], .inside 2 0x80 0xBF (n - 0xF0))
  else if n == 0xF4 then ([], .inside 2 0x80 0x8F 4)
  else ([none], .between)

/-- Reads one byte. A byte that cannot continue the character at hand leaves that one missing and is
read again between two characters. -/
def Pending.step : Pending → UInt8 → List (Option Char) × Pending
  | .between, b => Pending.start b
  | .inside more least greatest bits, b =>
    if least ≤ b && b ≤ greatest then
      let bits := bits * 64 + (b.toNat - 0x80)
      match more with
      | 0 => ([some (Char.ofNat bits)], .between)
      | more + 1 => ([], .inside more 0x80 0xBF bits)
    else (none :: (Pending.start b).1, (Pending.start b).2)

/-- Reads bytes from where the reader stands, behind characters that have been read, the last one
first. A character that is unfinished at the end is missing. -/
def Pending.run (p : Pending) (read : List (Option Char)) : Bytes → List (Option Char)
  | [] => (if p = .between then read else none :: read).reverse
  | b :: bytes => (p.step b).2.run ((p.step b).1.reverse ++ read) bytes

/-- The characters of bytes, with those that are missing. -/
def characters (bytes : Bytes) : List (Option Char) :=
  Pending.between.run [] bytes

/-- The text with these UTF-8 bytes, if there is one. -/
def ofUtf8? (bytes : Bytes) : Option String :=
  ((characters bytes).mapM id).map String.ofList

/-- The character in place of one that is missing. -/
def replacement : Char := Char.ofNat 0xFFFD

/-- The text of bytes, with a replacement for every missing character. -/
def ofUtf8Lossy (bytes : Bytes) : String :=
  String.ofList ((characters bytes).map fun c => c.getD replacement)

/-- Bytes without the mark that a text may start with to say that it is UTF-8. -/
def withoutMark : Bytes → Bytes
  | 0xEF :: 0xBB :: 0xBF :: bytes => bytes
  | bytes => bytes

end Roster.Text
