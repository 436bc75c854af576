import Roster.Json.Shape

/-!
# Token claims

The second part of a token says what it is good for: when it expires, from when on it counts, and
for which audiences. A claim of the wrong kind, or without a value, is as good as a missing one, as
long as a reader that gives up on it still finds the next one. It does not if there is a list or an
object where a single value belongs, or a flaw inside a value: then none of the claims counts. The
claims are members of an object; a list that holds all five of them in order is read as well.
-/

namespace Roster.Token

open Json

/-- The claims about when and for whom a token is good. -/
structure Claims where
  /-- The second at which the token expires. -/
  expires : Option Nat := none
  /-- The second at which the token starts to count. -/
  notBefore : Option Nat := none
  /-- The audiences that the token is for. -/
  audiences : Option (List String) := none
  deriving DecidableEq, Repr

namespace Claims

/-- The whole seconds that a number stands for: below `2 ^ 64`, a fraction rounded to the nearest
one, a half going up. -/
def seconds? : Number → Option Nat
  | .integer i => if 0 ≤ i then some i.toNat else none
  | .fraction x =>
    let inRange := x.quotient.1 < 0x10000000000000000 * x.quotient.2
    if (!x.negative || x.mantissa = 0) && inRange then some x.roundHalfUp else none

/-- Reads a time. What is none does not count, but must not hold anything. -/
def time : Shape (Option Nat)
  | .number (.ok n) => .ok (seconds? n)
  | .number (.error .atEnd) => .ok none
  | .text (.error .inside) => .error .malformed
  | .text _ => .ok none
  | .null => .ok none
  | .bool _ => .ok none
  | .array [] true => .ok none
  | .object [] true => .ok none
  | _ => .error .malformed

/-- Reads a single value that does not matter. -/
def single : Shape Unit
  | .number (.error .inside) => .error .malformed
  | .text (.error .inside) => .error .malformed
  | .array _ _ => .error .malformed
  | .object _ _ => .error .malformed
  | .deep _ => .error .malformed
  | .broken => .error .malformed
  | _ => .ok ()

/-- The texts among values, if all of them are texts. -/
def texts? : List Json → Option (List String)
  | [] => some []
  | .string s :: rest => (texts? rest).map (s :: ·)
  | _ => none

/-- The audiences that a value stands for: one text or a list of texts. -/
def audiences? : Json → Option (List String)
  | .string s => some [s]
  | .array items => texts? items
  | _ => none

/-- Reads any value. One that has a flaw at its end does not count. -/
def value : Shape (Option Json) := fun document =>
  match document.keep with
  | .ok value => .ok (some value)
  | .error .atEnd => .ok none
  | .error .inside => .error .malformed

/-- Claims as they are read. -/
structure Draft where
  /-- The claims read so far. -/
  seen : List String := []
  /-- What they say. -/
  claims : Claims := {}

/-- A claim. -/
def slot {α : Type} (name : String) (shape : Shape α) (put : α → Claims → Claims) :
    Shape.Slot Draft where
  name
  isFilled draft := draft.seen.contains name
  fill draft d := (shape d).map fun a => ⟨name :: draft.seen, put a draft.claims⟩

/-- Reads claims. -/
def shape : Shape Claims :=
  Shape.Record.shape
    { slots := [slot "exp" time fun t c => { c with expires := t },
        slot "nbf" time fun t c => { c with notBefore := t },
        slot "sub" single fun _ c => c,
        slot "iss" value fun _ c => c,
        slot "aud" value fun j c => { c with audiences := j.bind audiences? }]
      start := ({} : Draft)
      finish := fun draft => some draft.claims
      finishShort := fun _ => none }

/-- How many seconds the clocks of two servers may differ. -/
def leeway : Nat := 60

/-- Whether claims hold at a second, for a reader that is known as an audience. Without one any
audience will do, and so will claims that name none. -/
def hold (now : Nat) (audience : Option String) (c : Claims) : Bool :=
  (match c.expires with
    | some t => now ≤ t + leeway
    | none => false) &&
  (match c.notBefore with
    | some t => t ≤ now + leeway
    | none => true) &&
  (match audience, c.audiences with
    | some a, some audiences => audiences.contains a
    | _, _ => true)

end Claims

end Roster.Token
