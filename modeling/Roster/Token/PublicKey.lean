import Roster.Token.Der
import Roster.Token.Digest
import Roster.Token.Pem

/-!
# Public keys and signatures

An RSA public key is a modulus and an exponent. A message is signed by a number whose power, by
the exponent and modulo the modulus, is the digest of the message behind a fixed lead. Keys are
taken from armoured bytes, and how much of a key is looked at there depends on the label: that the
bytes hold a key at all may only show when a signature is checked, and then no signature is good.
-/

namespace Roster.Token

open Text

/-- A public key. -/
structure PublicKey where
  /-- The modulus. -/
  modulus : Nat
  /-- The exponent. -/
  exponent : Nat
  deriving DecidableEq, Repr

namespace PublicKey

/-! ### Reading -/

/-- Reads a strict length: the shortest spelling of a number below `2 ^ 16`. -/
def readLength : Bytes → Option (Nat × Bytes)
  | 0x81 :: n :: s => if 0x80 ≤ n then some (n.toNat, s) else none
  | 0x82 :: n :: m :: s => if 0 < n then some (n.toNat * 256 + m.toNat, s) else none
  | n :: s => if n < 0x80 then some (n.toNat, s) else none
  | [] => none

/-- Reads a value of one tag: its content, and what is behind it. -/
def readValue (tag : UInt8) : Bytes → Option (Bytes × Bytes)
  | b :: s => do
    let (length, s) ← readLength s
    if b = tag ∧ length ≤ s.length then some (s.take length, s.drop length) else none
  | [] => none

/-- The positive number that a content stands for in its shortest spelling. A leading zero only
keeps a set highest bit from being a sign. -/
def positive? : Bytes → Option Nat
  | [] => none
  | 0 :: b :: s => if 0x80 ≤ b then some (Digest.number (b :: s)) else none
  | b :: s => if 0 < b ∧ b < 0x80 then some (Digest.number (b :: s)) else none

/-- Reads a positive number. -/
def readNumber (s : Bytes) : Option (Nat × Bytes) := do
  let (content, s) ← readValue 0x02 s
  return (← positive? content, s)

/-- The number of bytes of a number. -/
def size (n : Nat) : Nat :=
  (Nat.log2 n + 8) / 8

/-- Whether a key is one that signatures are checked with: of 2048 to 8192 bits, whole bytes counted
at the lower end, with an odd exponent from 3 to 33 bits. -/
def isUsable (k : PublicKey) : Bool :=
  k.modulus % 2 = 1 && 256 ≤ size k.modulus && Nat.log2 k.modulus < 8192 &&
    k.exponent % 2 = 1 && 3 ≤ k.exponent && k.exponent < 0x200000000

/-- Reads a key: a sequence of modulus and exponent. -/
def ofBytes? (s : Bytes) : Option PublicKey := do
  let (content, rest) ← readValue 0x30 s
  let (modulus, s) ← readNumber content
  let (exponent, last) ← readNumber s
  let key : PublicKey := ⟨modulus, exponent⟩
  if rest = [] ∧ last = [] ∧ key.isUsable then some key else none

/-! ### Armoured keys -/

/-- The algorithm of RSA keys. -/
def rsa : List Nat := [1, 2, 840, 113549, 1, 1, 1]

/-- The algorithms of keys that are told apart. -/
def algorithms : List (List Nat) :=
  [rsa, [1, 2, 840, 10045, 2, 1], [1, 3, 101, 112]]

/-- The bytes that armoured bytes give as those of an RSA key: all of them if the label says so;
under a general label, the first string if the first algorithm is the right one. -/
def bytesOfPem? (p : Pem) : Option Bytes := do
  let values ← Der.ofBytes? p.content
  if p.label = "RSA PUBLIC KEY" ∨ p.label = "RSA PRIVATE KEY" then some p.content
  else if p.label = "PUBLIC KEY" ∨ p.label = "PRIVATE KEY" ∨ p.label = "CERTIFICATE" then
    if (Der.identifiersOf values).find? algorithms.contains = some rsa then
      (Der.stringsOf values).head?
    else none
  else none

/-- The bytes that a text gives as those of an RSA key. -/
def bytesOfText? (s : String) : Option Bytes :=
  (Pem.parse? s).bind bytesOfPem?

/-! ### Signatures -/

/-- A power modulo a number, for an exponent of so many bits. -/
def powMod (modulus base : Nat) : Nat → Nat → Nat
  | 0, _ => 1 % modulus
  | bits + 1, exponent =>
    let half := powMod modulus (base * base % modulus) bits (exponent / 2)
    if exponent % 2 = 1 then base * half % modulus else half

/-- What stands in front of a digest: that it is one, and by which algorithm. -/
def digestLead : Bytes :=
  [0x30, 0x31, 0x30, 0x0D, 0x06, 0x09, 0x60, 0x86, 0x48, 0x01, 0x65, 0x03, 0x04, 0x02, 0x01, 0x05,
    0x00, 0x04, 0x20]

/-- The digest of a message, filled up to so many bytes. -/
def filled (width : Nat) (message : Bytes) : Bytes :=
  -- Three bytes are around the filling, and a digest has 32 of them.
  0x00 :: 0x01 :: List.replicate (width - digestLead.length - 35) 0xFF ++
    0x00 :: digestLead ++ Digest.sha256 message

/-- Whether a signature of a message is good. -/
def verifies (k : PublicKey) (message signature : Bytes) : Bool :=
  let width := size k.modulus
  let s := Digest.number signature
  signature.length = width && s < k.modulus &&
    powMod k.modulus s 33 k.exponent = Digest.number (filled width message)

end PublicKey

end Roster.Token
