/-! # Double-precision numbers as exact counts of units

A double is kept as its sixty-four bits. Every finite double is a whole number of units of 2^-1074,
the least positive double, so a sign and a natural number describe it exactly. Rounding, products,
quotients and sums are then questions about natural numbers: the exact result is a quotient of two
of them, and `nearestUnits` picks the double next to it, a tie going to the even neighbour.
-/

namespace LiveRelay

/-- A double-precision number, kept as its bits. -/
structure Binary64 where
  bits : UInt64
deriving DecidableEq, Repr, Inhabited

namespace Binary64

/-- The weight of the sign bit. -/
def signWeight : Nat := 1 <<< 63

def isNegative (x : Binary64) : Bool := decide (signWeight ≤ x.bits.toNat)

def magnitudeBits (x : Binary64) : Nat := x.bits.toNat % signWeight

/-- The weight of the exponent field, above fifty-two bits of fraction. -/
def exponentWeight : Nat := 1 <<< 52

/-- An exponent field of all ones marks the infinities and the values that are not numbers. -/
def isFinite (x : Binary64) : Bool := decide (x.magnitudeBits < 0x7FF * exponentWeight)

def unitsPerOne : Nat := 1 <<< 1074

/-- The first count of units that is too large for a finite double. -/
def unitsLimit : Nat := 1 <<< 2098

/-- The size of a finite double in units. -/
def units (x : Binary64) : Nat :=
  let exponent := x.magnitudeBits / exponentWeight
  let fraction := x.magnitudeBits % exponentWeight
  if exponent = 0 then fraction else (exponentWeight + fraction) <<< (exponent - 1)

/-- How many low binary digits a count of units loses when it is kept in fifty-three. -/
def lostBits (n : Nat) : Nat := n.log2 - 52

/-- The whole number next to `num / den`, of two equally near ones the even one. -/
def roundQuotient (num den : Nat) : Nat :=
  let q := num / den
  let r := num % den
  if den < 2 * r ∨ (2 * r = den ∧ q % 2 = 1) then q + 1 else q

/-- The count of units of the double next to `num / den` units. -/
def nearestUnits (num den : Nat) : Nat :=
  let lost := lostBits (num / den)
  roundQuotient num (den <<< lost) <<< lost

/-- The double of a sign and a count of units, if the count is small enough. -/
def ofUnits? (negative : Bool) (n : Nat) : Option Binary64 :=
  if n < unitsLimit then
    let magnitude := lostBits n * exponentWeight + n >>> lostBits n
    some ⟨UInt64.ofNat (if negative then signWeight + magnitude else magnitude)⟩
  else none

def zero : Binary64 := ⟨0⟩

def negativeZero : Binary64 := ⟨0x8000000000000000⟩

def signedZero (negative : Bool) : Binary64 := if negative then negativeZero else zero

/-- The double next to a natural number, for the numbers of one machine word. -/
def ofWord (negative : Bool) (n : Nat) : Binary64 :=
  (ofUnits? negative (nearestUnits (n * unitsPerOne) 1)).getD (signedZero negative)

def tenTo (k : Nat) : Nat := Nat.pow 10 k

/-- The units of the double next to a power of ten. -/
def powerOfTen (k : Nat) : Nat := nearestUnits (tenTo k * unitsPerOne) 1

/-- A count of units times a power of ten, both factors and the product rounded. -/
def scaleUp (n k : Nat) : Nat := nearestUnits (n * powerOfTen k) unitsPerOne

/-- A count of units over a power of ten, the divisor and the quotient rounded. -/
def scaleDown (n k : Nat) : Nat := nearestUnits (n * unitsPerOne) (powerOfTen k)

end Binary64

end LiveRelay
