import LiveRelay.Decimal.Binary64

/-! # The fewest digits that read back

The reals that round to a finite double form an interval around it. The shortest decimal of the
double is the point of that interval on the coarsest decimal grid that has one, and the nearest of
such points. `Decimal.shortest` finds the grid by exact arithmetic on units; `Decimal.render` lays
the digits out by the rule of a `Layout`.
-/

namespace LiveRelay

/-- The decimal `0.d₁d₂d₃… · 10^point`, without leading or trailing zeros. -/
structure Decimal where
  digits : List Char
  point : Int
deriving DecidableEq, Repr

namespace Decimal

/-- Four times the distance in units from a double to the reals below it that still round to it. -/
def gapBelow (n : Nat) : Nat :=
  let lost := Binary64.lostBits n
  if lost ≠ 0 ∧ n = Binary64.exponentWeight <<< lost then 1 <<< lost else 2 <<< lost

/-- Four times the distance in units from a double to the reals above it that still round to it. -/
def gapAbove (n : Nat) : Nat := 2 <<< Binary64.lostBits n

/-- Whether a double is the even one of two neighbours, so that the ends of its interval round to
it. -/
def ownsEnds (n : Nat) : Bool := n >>> Binary64.lostBits n % 2 == 0

/-- Whether the quotient `num / den`, in units, rounds to the double of `n` units. -/
def roundsTo (n num den : Nat) : Bool :=
  let low := (4 * n - gapBelow n) * den
  let high := (4 * n + gapAbove n) * den
  if ownsEnds n then low ≤ 4 * num && 4 * num ≤ high else low < 4 * num && 4 * num < high

/-- The spacing of the grid of multiples of `10^k`, in units, as a quotient. -/
def spacing (k : Int) : Nat × Nat :=
  if 0 ≤ k then (Binary64.tenTo k.toNat * Binary64.unitsPerOne, 1)
  else (Binary64.unitsPerOne, Binary64.tenTo (-k).toNat)

/-- The multiple of `10^k` next to `n` units, of two equally near ones the even one, if it rounds to
them; otherwise the multiple on the other side, if that one does. Doubles below a
power of two lie closer together than those above it, so the farther one may round to it alone. -/
def onGrid? (n : Nat) (k : Int) : Option Nat :=
  let (num, den) := spacing k
  let below := n * den / num
  let near := Binary64.roundQuotient (n * den) num
  let far := if near = below then below + 1 else below
  if roundsTo n (near * num) den then some near
  else if roundsTo n (far * num) den then some far
  else none

/-- Tries ever finer grids, from `10^k` on. -/
def search (n : Nat) : Nat → Int → Nat × Int
  | 0, k => (n, k)
  | tries + 1, k =>
    match onGrid? n k with
    | some m => (m, k)
    | none => search n tries (k - 1)

/-- A power of ten above the double of `n` units, and at most a hundred times too large. -/
def startExponent (n : Nat) : Int := ((n.log2 : Int) - 1073) * 30103 / 100000 + 1

/-- The shortest decimal that rounds to the double of `n` units, for positive `n`. -/
def shortest (n : Nat) : Decimal :=
  let (m, k) := search n 24 (startExponent n)
  let digits := Nat.toDigits 10 m
  let kept := (digits.reverse.dropWhile (· == '0')).reverse
  ⟨kept, k + digits.length⟩

/-- The decisions of a number format: where positional notation ends, and how an exponent is marked.
-/
structure Layout where
  leastPoint : Int
  mostPoint : Int
  exponentMark : Char
deriving Repr

/-- Lays a decimal out: positional between the limits, always with a fraction, and elsewhere one
digit, the rest of the digits after a point, and an exponent. -/
def render (layout : Layout) (d : Decimal) : List Char :=
  if 0 < d.point ∧ d.point ≤ layout.mostPoint then
    let whole := d.point.toNat
    let fraction := d.digits.drop whole
    d.digits.take whole ++ List.replicate (whole - d.digits.length) '0' ++
      '.' :: (if fraction.isEmpty then ['0'] else fraction)
  else if layout.leastPoint ≤ d.point ∧ d.point ≤ 0 then
    '0' :: '.' :: (List.replicate (-d.point).toNat '0' ++ d.digits)
  else
    let exponent := d.point - 1
    let sign := if exponent < 0 then '-' else '+'
    let fraction := d.digits.drop 1
    d.digits.take 1 ++ (if fraction.isEmpty then [] else '.' :: fraction) ++
      layout.exponentMark :: sign :: Nat.toDigits 10 exponent.natAbs

end Decimal

end LiveRelay
