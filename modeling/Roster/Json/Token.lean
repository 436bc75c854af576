import Roster.Json.Basic
import Roster.Text.Percent

/-!
# JSON tokens

The tokens of JSON text given as bytes. A number or a text may be well formed and still have no
value: a number may be out of range, a text may hold half of a surrogate pair or bytes that are no
UTF-8. Such a token is kept, because a reader that skips it has nothing against it. One that wants
the value gives up, at the end of the token or inside it.
-/

namespace Roster.Json

open Text

/-- Where a reader gives up on something that has no value. -/
inductive Flaw where
  /-- At its end, so that what follows can still be read. -/
  | atEnd
  /-- Before its end. -/
  | inside
  deriving DecidableEq, Repr

/-- A token of JSON text. -/
inductive Token where
  /-- The start of an array. -/
  | openArray
  /-- The end of an array. -/
  | closeArray
  /-- The start of an object. -/
  | openObject
  /-- The end of an object. -/
  | closeObject
  /-- The mark between two items or members. -/
  | comma
  /-- The mark between a name and its value. -/
  | colon
  /-- The absent value. -/
  | null
  /-- A truth value. -/
  | bool (value : Bool)
  /-- A number, with its value if it is in range. -/
  | number (value : Except Flaw Number)
  /-- A text, with its value if it is Unicode text. -/
  | text (value : Except Flaw String)
  /-- The place where the text stops being JSON; what follows is not read. -/
  | stray

/-! ### Numbers -/

/-- Whether a byte is a decimal digit. -/
def isDigit (b : UInt8) : Bool := 0x30 ≤ b && b ≤ 0x39

/-- A number as written: its sign, the digits before and after the point, and the exponent, whose
sign and digits are apart. -/
structure Lexeme where
  /-- Whether there is a minus in front. -/
  negative : Bool
  /-- The digits before the point. -/
  whole : Bytes
  /-- The digits after the point, if there is one. -/
  fraction : Option Bytes
  /-- Whether the exponent is negative, and its digits, if there is one. -/
  exponent : Option (Bool × Bytes)

/-- Reads one or more digits. -/
def digits? (s : Bytes) : Option (Bytes × Bytes) :=
  match s.takeWhile isDigit with
  | [] => none
  | ds => some (ds, s.dropWhile isDigit)

/-- Reads the digits before the point: a zero alone, or digits that start with another one. -/
def whole? (s : Bytes) : Option (Bytes × Bytes) :=
  match digits? s with
  | some (0x30 :: _ :: _, _) => none
  | r => r

/-- Reads the digits behind a point, if there is a point. -/
def fraction? : Bytes → Option (Option Bytes × Bytes)
  | 0x2E :: s => (digits? s).map fun (ds, rest) => (some ds, rest)
  | s => some (none, s)

/-- Reads the sign of an exponent: whether it is a minus. -/
def exponentSign : Bytes → Bool × Bytes
  | 0x2B :: s => (false, s)
  | 0x2D :: s => (true, s)
  | s => (false, s)

/-- Reads an exponent, if there is one. -/
def exponent? : Bytes → Option (Option (Bool × Bytes) × Bytes)
  | b :: s =>
    if b = 0x65 ∨ b = 0x45 then
      let (negative, s) := exponentSign s
      (digits? s).map fun (ds, rest) => (some (negative, ds), rest)
    else some (none, b :: s)
  | [] => some (none, [])

/-- Reads a number as written. -/
def lexeme? (s : Bytes) : Option (Lexeme × Bytes) := do
  let (negative, s) := match s with
    | 0x2D :: s => (true, s)
    | s => (false, s)
  let (whole, s) ← whole? s
  let (fraction, s) ← fraction? s
  let (exponent, s) ← exponent? s
  return (⟨negative, whole, fraction, exponent⟩, s)

/-- The value of a digit. -/
def digitValue (b : UInt8) : Nat := b.toNat - 0x30

/-- Extends a number digit by digit while it stays within a limit: the number, and the digits that
are left. -/
def extendWithin (limit : Nat) : Nat → Bytes → Nat × Bytes
  | n, [] => (n, [])
  | n, b :: ds =>
    if n * 10 + digitValue b ≤ limit then extendWithin limit (n * 10 + digitValue b) ds
    else (n, b :: ds)

/-- The leading digits of a number that fit 64 bits without a sign, and the digits behind them. -/
def significand : Nat → Bytes → Nat × Bytes :=
  extendWithin 0xFFFFFFFFFFFFFFFF

/-- A power of ten up to the greatest one in range. -/
def powerOfTen? (n : Nat) : Option Binary :=
  if n ≤ 308 then Binary.ofNat? (Nat.pow 10 n) else none

/-- A number divided by a power of ten, at most 308 places at a time, each step rounded. -/
def shiftDown (x : Binary) : Nat → Nat → Option Binary
  | 0, _ => none
  | fuel + 1, places =>
    if x.mantissa = 0 then some x
    else if places ≤ 308 then (powerOfTen? places).bind x.div?
    else ((powerOfTen? 308).bind x.div?).bind fun y => shiftDown y fuel (places - 308)

/-- A significand times a power of ten, rounded at every step; nothing if it is out of range. -/
def scaled? (n : Nat) (places : Int) : Option Binary := do
  let x ← Binary.ofNat? n
  if 0 ≤ places then
    if x.mantissa = 0 then some x
    else (powerOfTen? places.toNat).bind x.mul?
  else shiftDown x 4 (-places).toNat

/-- The leading digits of an exponent that fit 31 bits, and the digits behind them. -/
def places (ds : Bytes) : Nat × Bytes :=
  extendWithin 0x7FFFFFFF 0 ds

/-- A value that is known only at the end of what it is read from. -/
def atEnd {α : Type} : Option α → Except Flaw α
  | some a => .ok a
  | none => .error .atEnd

namespace Lexeme

/-- Whether a number has neither a point nor an exponent. -/
def isWhole (x : Lexeme) : Bool :=
  x.fraction.isNone && x.exponent.isNone

/-- The significand of a number and its power of ten before the written exponent: the leading digits
that fit 64 bits. Digits before the point that do not fit count as zeros; digits behind it that do
not fit are dropped. -/
def leading (x : Lexeme) : Nat × Int :=
  match significand 0 x.whole with
  | (n, []) =>
    let digits := x.fraction.getD []
    let (n, dropped) := significand n digits
    (n, -((digits.length - dropped.length : Nat) : Int))
  | (n, dropped) =>
    match x.fraction with
    | none => (n, dropped.length)
    | some ds =>
      let (m, rest) := significand n ds
      (m, (dropped.length : Int) - ((ds.length - rest.length : Nat) : Int))

/-- The size of a number as a binary fraction. A reader gives up on an exponent at the first digit
that does not fit, and on any other number at its end. -/
def size (x : Lexeme) : Except Flaw Binary :=
  let (n, shift) := x.leading
  match x.exponent with
  | none => atEnd (scaled? n shift)
  | some (negative, ds) =>
    match places ds with
    | (e, []) => atEnd (scaled? n (if negative then shift - e else shift + e))
    | (_, _ :: rest) =>
      if n = 0 ∨ negative then .ok .zero
      else .error (if rest.isEmpty then .atEnd else .inside)

/-- The value of a number as a binary fraction. -/
def asFraction (x : Lexeme) : Except Flaw Number :=
  x.size.map fun size => .fraction (if x.negative then size.neg else size)

/-- The value of a number. A whole number that no 64-bit integer has, and minus zero, are binary
fractions. -/
def value (x : Lexeme) : Except Flaw Number :=
  match x.isWhole, significand 0 x.whole with
  | true, (n, []) =>
    if !x.negative then .ok (.integer n)
    else if 0 < n && n ≤ 0x8000000000000000 then .ok (.integer (-n))
    else x.asFraction
  | _, _ => x.asFraction

end Lexeme

/-! ### Texts -/

/-- The number that four hexadecimal digits name. -/
def hex4? (a b c d : UInt8) : Option Nat := do
  let a ← hexValue? a
  let b ← hexValue? b
  let c ← hexValue? c
  let d ← hexValue? d
  return ((a.toNat * 16 + b.toNat) * 16 + c.toNat) * 16 + d.toNat

/-- The byte that an escape of one letter stands for. -/
def shortEscape? (b : UInt8) : Option UInt8 :=
  if b = 0x22 ∨ b = 0x5C ∨ b = 0x2F then some b
  else if b = 0x62 then some 8
  else if b = 0x66 then some 12
  else if b = 0x6E then some 10
  else if b = 0x72 then some 13
  else if b = 0x74 then some 9
  else none

/-- Bytes in front of reversed bytes. -/
def pushAll (bytes read : Bytes) : Bytes :=
  bytes.foldl (fun read b => b :: read) read

/-- The content of a text that has been read up to some place: its bytes, the last one first, and
whether a surrogate pair has been broken so far. -/
structure Content where
  /-- The bytes read, the last one first. -/
  read : Bytes := []
  /-- Where a reader gives up on the first half of a surrogate pair without the other half, if there
  is one. -/
  flaw : Option Flaw := none

/-- The content after one more byte. -/
def Content.push (c : Content) (b : UInt8) : Content :=
  { c with read := b :: c.read }

/-- The content after one more UTF-16 unit that is no half of a pair, or after a whole pair. -/
def Content.pushChar (c : Content) (n : Nat) : Content :=
  { c with read := pushAll (String.utf8EncodeChar (Char.ofNat n)) c.read }

/-- The content after half of a surrogate pair. Only the first one counts. -/
def Content.spoil (c : Content) (flaw : Flaw) : Content :=
  { c with flaw := c.flaw.or (some flaw) }

/-- The value of a complete content. That its bytes are no UTF-8 shows at its end. -/
def Content.value (c : Content) : Except Flaw String :=
  match c.flaw with
  | some flaw => .error flaw
  | none => atEnd (ofUtf8? c.read.reverse)

/-- Where a reader gives up on half of a surrogate pair: it takes one more byte behind the first
half of a pair, which may be the quote that ends the text. -/
def loneFlaw (n : Nat) (rest : Bytes) : Flaw :=
  if n ≤ 0xDBFF ∧ rest.head? = some 0x22 then .atEnd else .inside

/-- Reads a text behind its opening quote up to its closing one. -/
def text? (content : Content) : Bytes → Option (Except Flaw String × Bytes)
  | 0x22 :: rest => some (content.value, rest)
  | 0x5C :: 0x75 :: a :: b :: c :: d :: 0x5C :: 0x75 :: e :: f :: g :: h :: rest =>
    match hex4? a b c d with
    | none => none
    | some n =>
      match hex4? e f g h with
      | none => none
      | some m =>
        -- Two halves of a pair are one character; else the second escape is read on its own.
        if 0xD800 ≤ n ∧ n ≤ 0xDBFF ∧ 0xDC00 ≤ m ∧ m ≤ 0xDFFF then
          text? (content.pushChar (0x10000 + (n - 0xD800) * 0x400 + (m - 0xDC00))) rest
        else if 0xD800 ≤ n ∧ n ≤ 0xDFFF then
          text? (content.spoil .inside) (0x5C :: 0x75 :: e :: f :: g :: h :: rest)
        else text? (content.pushChar n) (0x5C :: 0x75 :: e :: f :: g :: h :: rest)
  | 0x5C :: 0x75 :: a :: b :: c :: d :: rest =>
    match hex4? a b c d with
    | none => none
    | some n =>
      if 0xD800 ≤ n ∧ n ≤ 0xDFFF then text? (content.spoil (loneFlaw n rest)) rest
      else text? (content.pushChar n) rest
  | 0x5C :: b :: rest =>
    match shortEscape? b with
    | some b => text? (content.push b) rest
    | none => none
  | b :: rest => if b < 0x20 ∨ b = 0x5C then none else text? (content.push b) rest
  | [] => none

/-! ### Tokens -/

/-- Whether a byte may stand between two tokens. -/
def isSpace (b : UInt8) : Bool :=
  b == 0x20 || b == 0x09 || b == 0x0A || b == 0x0D

/-- Reads a word of letters behind its first letter. -/
def word? (token : Token) : Bytes → Bytes → Option (Token × Bytes)
  | [], rest => some (token, rest)
  | w :: word, b :: rest => if w = b then word? token word rest else none
  | _ :: _, [] => none

/-- Reads one token at the start of a text. -/
def token? : Bytes → Option (Token × Bytes)
  | [] => none
  | b :: rest =>
    if b = 0x5B then some (.openArray, rest)
    else if b = 0x5D then some (.closeArray, rest)
    else if b = 0x7B then some (.openObject, rest)
    else if b = 0x7D then some (.closeObject, rest)
    else if b = 0x2C then some (.comma, rest)
    else if b = 0x3A then some (.colon, rest)
    else if b = 0x22 then (text? {} rest).map fun (value, rest) => (.text value, rest)
    else if b = 0x6E then word? .null [0x75, 0x6C, 0x6C] rest
    else if b = 0x74 then word? (.bool true) [0x72, 0x75, 0x65] rest
    else if b = 0x66 then word? (.bool false) [0x61, 0x6C, 0x73, 0x65] rest
    else (lexeme? (b :: rest)).map fun (x, rest) => (.number x.value, rest)

/-- Reads at most so many tokens; a text with more of them ends in a stray one. -/
def tokensWithin : Nat → Bytes → List Token → List Token
  | fuel, s, read =>
    match s.dropWhile isSpace with
    | [] => read.reverse
    | b :: rest =>
      match fuel with
      | 0 => (Token.stray :: read).reverse
      | fuel + 1 =>
        match token? (b :: rest) with
        | none => (Token.stray :: read).reverse
        | some (token, rest) => tokensWithin fuel rest (token :: read)

/-- The tokens of a text. Every token has at least one byte, so the length of the text bounds their
number. -/
def tokens (s : Bytes) : List Token :=
  tokensWithin s.length s []

end Roster.Json
