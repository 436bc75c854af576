import Roster.Text.Utf8

/-!
# Message digests

The digest of a message in 256 bits, by the algorithm SHA-256. The message is padded to blocks of
sixteen words of 32 bits, each block is expanded to 64 words, and these are mixed one after the
other into a state of eight words.
-/

namespace Roster.Token.Digest

open Text

/-- A word of 32 bits. -/
abbrev Word := BitVec 32

/-- The state of eight words. -/
structure State where
  /-- The first word. -/
  a : Word
  /-- The second word. -/
  b : Word
  /-- The third word. -/
  c : Word
  /-- The fourth word. -/
  d : Word
  /-- The fifth word. -/
  e : Word
  /-- The sixth word. -/
  f : Word
  /-- The seventh word. -/
  g : Word
  /-- The eighth word. -/
  h : Word

/-- The state before the first block: the leading bits of the fractional parts of the square roots
of the first eight primes. -/
def start : State :=
  ⟨0x6a09e667, 0xbb67ae85, 0x3c6ef372, 0xa54ff53a, 0x510e527f, 0x9b05688c, 0x1f83d9ab, 0x5be0cd19⟩

/-- The words that are added in the rounds: the leading bits of the fractional parts of the cube
roots of the first 64 primes. -/
def roundWords : List Word := [
  0x428a2f98, 0x71374491, 0xb5c0fbcf, 0xe9b5dba5, 0x3956c25b, 0x59f111f1, 0x923f82a4, 0xab1c5ed5,
  0xd807aa98, 0x12835b01, 0x243185be, 0x550c7dc3, 0x72be5d74, 0x80deb1fe, 0x9bdc06a7, 0xc19bf174,
  0xe49b69c1, 0xefbe4786, 0x0fc19dc6, 0x240ca1cc, 0x2de92c6f, 0x4a7484aa, 0x5cb0a9dc, 0x76f988da,
  0x983e5152, 0xa831c66d, 0xb00327c8, 0xbf597fc7, 0xc6e00bf3, 0xd5a79147, 0x06ca6351, 0x14292967,
  0x27b70a85, 0x2e1b2138, 0x4d2c6dfc, 0x53380d13, 0x650a7354, 0x766a0abb, 0x81c2c92e, 0x92722c85,
  0xa2bfe8a1, 0xa81a664b, 0xc24b8b70, 0xc76c51a3, 0xd192e819, 0xd6990624, 0xf40e3585, 0x106aa070,
  0x19a4c116, 0x1e376c08, 0x2748774c, 0x34b0bcb5, 0x391c0cb3, 0x4ed8aa4a, 0x5b9cca4f, 0x682e6ff3,
  0x748f82ee, 0x78a5636f, 0x84c87814, 0x8cc70208, 0x90befffa, 0xa4506ceb, 0xbef9a3f7, 0xc67178f2]

/-- The state after one word of an expanded block. -/
def mix (s : State) (w : Word) : State :=
  let turned := s.e.rotateRight 6 ^^^ s.e.rotateRight 11 ^^^ s.e.rotateRight 25
  let choice := (s.e &&& s.f) ^^^ (~~~s.e &&& s.g)
  let first := s.h + turned + choice + w
  let turned := s.a.rotateRight 2 ^^^ s.a.rotateRight 13 ^^^ s.a.rotateRight 22
  let majority := (s.a &&& s.b) ^^^ (s.a &&& s.c) ^^^ (s.b &&& s.c)
  ⟨first + (turned + majority), s.a, s.b, s.c, s.d + first, s.e, s.f, s.g⟩

/-- A word of an expanded block from those two, seven, fifteen and sixteen places before it. -/
def expansion (w2 w7 w15 w16 : Word) : Word :=
  w16 + (w15.rotateRight 7 ^^^ w15.rotateRight 18 ^^^ w15 >>> 3) + w7 +
    (w2.rotateRight 17 ^^^ w2.rotateRight 19 ^^^ w2 >>> 10)

/-- The first words of an expanded block, of which the next sixteen are given. -/
def expand : Nat → List Word → List Word
  | 0, _ => []
  | _, [] => []
  | n + 1, w :: rest =>
    w :: expand n (rest ++ [expansion (rest.getD 13 0) (rest.getD 8 0) (rest.getD 0 0) w])

/-- The state after a block. -/
def absorb (s : State) (block : List Word) : State :=
  let t := (List.zipWith (· + ·) roundWords (expand 64 block)).foldl mix s
  ⟨s.a + t.a, s.b + t.b, s.c + t.c, s.d + t.d, s.e + t.e, s.f + t.f, s.g + t.g, s.h + t.h⟩

/-- The number that bytes write in base 256, the most significant first. -/
def number (bytes : Bytes) : Nat :=
  bytes.foldl (fun n b => n * 256 + b.toNat) 0

/-- A number as so many bytes, the most significant first. -/
def bytesOf : Nat → Nat → Bytes
  | 0, _ => []
  | width + 1, n => UInt8.ofNat (n / Nat.pow 256 width % 256) :: bytesOf width n

/-- A message with a one bit, zero bits and the number of its bits behind it, which together fill
blocks of 64 bytes. -/
def pad (message : Bytes) : Bytes :=
  message ++ 0x80 :: List.replicate ((119 - message.length % 64) % 64) 0 ++
    bytesOf 8 (8 * message.length)

/-- The parts of a list of one length, as many as are asked for. -/
def parts {α : Type} (size : Nat) : Nat → List α → List (List α)
  | 0, _ => []
  | n + 1, l => l.take size :: parts size n (l.drop size)

/-- The words of a block. -/
def wordsOf (block : Bytes) : List Word :=
  (parts 4 16 block).map fun bytes => BitVec.ofNat 32 (number bytes)

/-- The digest of a message. -/
def sha256 (message : Bytes) : Bytes :=
  let padded := pad message
  let blocks := parts 64 (padded.length / 64) padded
  let s := blocks.foldl (fun s block => absorb s (wordsOf block)) start
  [s.a, s.b, s.c, s.d, s.e, s.f, s.g, s.h].flatMap fun w => bytesOf 4 w.toNat

end Roster.Token.Digest
