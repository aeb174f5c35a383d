import LiveRelay.Decimal.Binary64

/-! # The value of a decimal literal

A literal is the digits of a number as they are written: a sign, a whole part, and perhaps a
fraction and an exponent. An integer that fits a machine word keeps its exact value. Any other
literal becomes a double by a quick rule that is not correctly rounded: its first digits are
gathered into one word, and that word, as a double, is multiplied or divided by a power of ten,
itself a double.
-/

namespace LiveRelay

/-- A number as JSON texts distinguish them: whole, negative whole, or double. -/
inductive Number where
  | unsigned (n : UInt64)
  | negative (i : Int64) (below : i < 0)
  | real (x : Binary64)
deriving DecidableEq, Repr

namespace Number

def toReal : Number → Binary64
  | .unsigned n => .ofWord false n.toNat
  | .negative i _ => .ofWord true i.toInt.natAbs
  | .real x => x

end Number

structure Literal where
  negative : Bool
  whole : List Char
  fraction : Option (List Char)
  exponent : Option (Bool × List Char)
deriving DecidableEq, Repr

namespace Literal

def digitValue (c : Char) : Nat := c.toNat - '0'.toNat

/-- Appends digits to a significand for as long as it fits a machine word; the second part counts
the digits that were taken. -/
def absorb (significand taken : Nat) : List Char → Nat × Nat
  | [] => (significand, taken)
  | c :: digits =>
    let next := significand * 10 + digitValue c
    if next < UInt64.size then absorb next (taken + 1) digits else (significand, taken)

def exponentLimit : Nat := 0x7FFFFFFF

/-- Reads exponent digits: their value, or the digits that follow the one that made it too large. -/
def readExponent (value : Nat) : List Char → Except (List Char) Nat
  | [] => .ok value
  | c :: digits =>
    let next := value * 10 + digitValue c
    if next ≤ exponentLimit then readExponent next digits else .error digits

/-- A word times a power of ten, in units: `none` beyond the largest double. A power beyond 308 is
taken in two steps, and no word is large enough to outlast a third. -/
def scaled? (word : Nat) (exponent : Int) : Option Nat :=
  let n := Binary64.nearestUnits (word * Binary64.unitsPerOne) 1
  let size := exponent.natAbs
  if word = 0 then some 0
  else if 0 ≤ exponent then
    if size ≤ 308 then
      let product := Binary64.scaleUp n size
      if product < Binary64.unitsLimit then some product else none
    else none
  else if size ≤ 308 then some (Binary64.scaleDown n size)
  else if size ≤ 616 then some (Binary64.scaleDown (Binary64.scaleDown n 308) (size - 308))
  else some 0

/-- Why a literal has no value: the digits that were not looked at any more. -/
structure OutOfRange where
  unread : List Char
deriving DecidableEq, Repr

/-- The double of a literal's sign, gathered word and power of ten. -/
def real (negative : Bool) (word : Nat) (exponent : Int) : Except OutOfRange Number :=
  match (scaled? word exponent).bind (Binary64.ofUnits? negative) with
  | some x => .ok (.real x)
  | none => .error ⟨[]⟩

/-- An integer literal is exact where it fits a word; minus zero is a double. -/
def integer (negative : Bool) (n : Nat) : Number :=
  if negative then
    let i := Int64.ofInt (-(n : Int))
    if below : n ≤ Binary64.signWeight ∧ i < 0 then .negative i below.2 else .real (.ofWord true n)
  else .unsigned (UInt64.ofNat n)

/-- The value of a literal. A whole part that is too long counts its remaining digits as powers of
ten; a fraction that is too long is cut. -/
def value (l : Literal) : Except OutOfRange Number :=
  let (word, taken) := absorb 0 0 l.whole
  let untaken := l.whole.length - taken
  if untaken = 0 ∧ l.fraction = none ∧ l.exponent = none then
    .ok (integer l.negative word)
  else
    let (word, places) := absorb word 0 (l.fraction.getD [])
    let shift : Int := (untaken : Int) - places
    match l.exponent with
    | none => real l.negative word shift
    | some (down, digits) =>
      match readExponent 0 digits with
      | .ok e => real l.negative word (if down then shift - e else shift + e)
      | .error unread =>
        if word = 0 ∨ down then .ok (.real (.signedZero l.negative)) else .error ⟨unread⟩

end Literal

end LiveRelay
