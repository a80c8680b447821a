import Facade.Number.Binary

/-! The shortest decimal of a binary number. The reals that round to a finite value form an
interval; of the decimals inside it one with the fewest digits is chosen, among those the
nearest to the value, and of two equally near the one that ends in an even digit. All
comparisons are between natural numbers. -/
namespace Facade.Number

/-- The decimal `digits * 10 ^ exponent`. -/
structure Decimal where
  digits : Nat
  exponent : Int
  deriving DecidableEq

def digitCount (n : Nat) : Nat := (Nat.toDigits 10 n).length

/-- The least power of ten above a positive value. -/
def Magnitude.scale (m : Magnitude) : Int :=
  if m.denominator ≤ m.numerator then digitCount (m.numerator / m.denominator)
  else 1 - (digitCount ((m.denominator - 1) / m.numerator) : Int)

/-- The value and the ends of its rounding interval, as multiples of `1 / unit` of the grid
`10 ^ exponent`: the grid point `d` is the multiple `d * unit`. -/
structure Magnitude.Grid where
  exponent : Int
  unit : Nat
  value : Nat
  low : Nat
  high : Nat
  closed : Bool

/-- The ends lie a quarter or a half of the last binary place away, and they belong to the
interval when the significand is even. -/
def Magnitude.grid (m : Magnitude) (exponent : Int) : Magnitude.Grid :=
  let places := Nat.pow 2 (m.exponent - 2).toNat * Nat.pow 10 (-exponent).toNat
  { exponent
    unit := Nat.pow 2 (2 - m.exponent).toNat * Nat.pow 10 exponent.toNat
    value := 4 * m.significand * places
    low := (4 * m.significand - if m.narrow then 1 else 2) * places
    high := (4 * m.significand + 2) * places
    closed := m.significand % 2 == 0 }

namespace Magnitude.Grid

def holds (g : Grid) (digits : Nat) : Bool :=
  let point := digits * g.unit
  if g.closed then g.low ≤ point && point ≤ g.high else g.low < point && point < g.high

def below (g : Grid) : Nat := g.value / g.unit

/-- Only the two grid points around the value need a test: if any point lies in the
interval, one of these does. -/
def nearest? (g : Grid) : Option Decimal :=
  let d := g.below
  match g.holds d, g.holds (d + 1) with
  | false, false => none
  | true, false => some ⟨d, g.exponent⟩
  | false, true => some ⟨d + 1, g.exponent⟩
  | true, true =>
      let middle := (2 * d + 1) * g.unit
      if 2 * g.value < middle || (2 * g.value == middle && d % 2 == 0) then some ⟨d, g.exponent⟩
      else some ⟨d + 1, g.exponent⟩

end Magnitude.Grid

/-- Every finite value is a decimal, if a long one. -/
def Magnitude.exact (m : Magnitude) : Decimal :=
  if 0 ≤ m.exponent then ⟨m.numerator, 0⟩
  else ⟨m.significand * Nat.pow 5 (-m.exponent).toNat, m.exponent⟩

/-- The grids are tried from one digit on; seventeen digits tell all binary64 numbers apart. -/
def Magnitude.shortest (m : Magnitude) : Decimal :=
  ((List.range 17).findSome? fun (n : Nat) => (m.grid (m.scale - (n + 1))).nearest?).getD m.exact

end Facade.Number
