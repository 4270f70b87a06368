/-!
# Shortest decimals

The decimal text of a double has the fewest digits that read back as the same double, and among
those the digits nearest to it, a tie going to the even ones.  A finite double is `m · 2^q`, and the
reals that round to it form an interval around it whose ends belong to it exactly when `m` is even.
`Decimal.shortest` looks at the grids of 1, 2, … 17 digits in turn and takes the first grid on which
a neighbour of the double lies in that interval.  All arithmetic is exact.
-/

set_option autoImplicit false

namespace AutoImport

/-- A positive decimal `digits · 10^exponent`. -/
structure Decimal where
  digits : Nat
  exponent : Int
  deriving Repr, DecidableEq

/-- A finite positive double `mantissa · 2^exponent`; `narrow` when the gap below it is half the gap
above it. -/
structure Double where
  mantissa : Nat
  exponent : Int
  narrow : Bool
  deriving Repr, DecidableEq

/-- The double without its sign, read off its bits. -/
def Double.ofBits (bits : UInt64) : Double :=
  let field := ((bits >>> 52) &&& 0x7ff).toNat
  let fraction := (bits &&& 0xfffffffffffff).toNat
  if field = 0 then ⟨fraction, -1074, false⟩
  else ⟨fraction + 0x10000000000000, Int.ofNat field - 1075, fraction = 0 && 1 < field⟩

/-- A power with a whole exponent as numerator and denominator. -/
def Decimal.powerPair (base : Nat) : Int → Nat × Nat
  | .ofNat k => (Nat.pow base k, 1)
  | .negSucc k => (1, Nat.pow base (k + 1))

/-- The double, the ends of its interval and the unit `10^k`, all over one denominator. -/
structure DecimalGrid where
  low : Nat
  value : Nat
  high : Nat
  unit : Nat
  closed : Bool

/-- The interval of a double measured on the grid of the multiples of `10^k`. -/
def Double.grid (b : Double) (k : Int) : DecimalGrid :=
  let (twoUp, twoDown) := Decimal.powerPair 2 (b.exponent - 2)
  let (tenUp, tenDown) := Decimal.powerPair 10 k
  let scale := twoUp * tenDown
  { low := (4 * b.mantissa - (if b.narrow then 1 else 2)) * scale
    value := 4 * b.mantissa * scale
    high := (4 * b.mantissa + 2) * scale
    unit := twoDown * tenUp
    closed := b.mantissa % 2 = 0 }

/-- Whether `d` units lie in the interval. -/
def DecimalGrid.accepts (g : DecimalGrid) (d : Nat) : Bool :=
  if g.closed then g.low ≤ d * g.unit && d * g.unit ≤ g.high
  else g.low < d * g.unit && d * g.unit < g.high

/-- The multiple of the unit nearest to the double among those in the interval; of two that are
equally near, the even one. -/
def DecimalGrid.nearest? (g : DecimalGrid) : Option Nat :=
  let below := g.value / g.unit
  let above := below + 1
  match g.accepts below, g.accepts above with
  | true, true =>
    let downward := g.value - below * g.unit
    let upward := above * g.unit - g.value
    if downward < upward ∨ (downward = upward ∧ below % 2 = 0) then some below else some above
  | true, false => some below
  | false, true => some above
  | false, false => none

/-- How many places a positive fraction below one is shifted before it reaches one. -/
def Decimal.leadingZeros (numerator denominator : Nat) : Nat → Nat
  | 0 => 0
  | steps + 1 =>
    if denominator ≤ numerator then 0
    else Decimal.leadingZeros (10 * numerator) denominator steps + 1

/-- The exponent `e` with `10^(e-1) ≤ x < 10^e`. -/
def Double.magnitude (b : Double) : Int :=
  let (up, down) := Decimal.powerPair 2 b.exponent
  let numerator := b.mantissa * up
  if down ≤ numerator then ((Nat.toDigits 10 (numerator / down)).length : Int)
  else 1 - (Decimal.leadingZeros numerator down 400 : Int)

/-- The decimal without zeros at the end of its digits. -/
def Decimal.stripZeros : Nat → Decimal → Decimal
  | 0, d => d
  | steps + 1, d =>
    if d.digits ≠ 0 ∧ d.digits % 10 = 0 then stripZeros steps ⟨d.digits / 10, d.exponent + 1⟩ else d

/-- The first hit on the grids of `n`, `n + 1`, … digits. -/
def Double.search (b : Double) (magnitude : Int) : Nat → Nat → Decimal
  | _, 0 => ⟨b.mantissa, 0⟩
  | n, steps + 1 =>
    let k := magnitude - n
    match (b.grid k).nearest? with
    | some d => Decimal.stripZeros 20 ⟨d, k⟩
    | none => b.search magnitude (n + 1) steps

/-- The shortest decimal of a finite positive double. -/
def Decimal.shortest (bits : UInt64) : Decimal :=
  let b := Double.ofBits bits
  b.search b.magnitude 1 17

end AutoImport
