/-! The exact value behind a binary64 number, and its exact comparison with an integer. -/
namespace Facade.Number

/-- The finite value `significand * 2 ^ exponent`. It is narrow when the neighbour below is
half as far away as the neighbour above, which happens at the powers of two. -/
structure Magnitude where
  significand : Nat
  exponent : Int
  narrow : Bool
  deriving DecidableEq

inductive Binary where
  | undefined
  | infinite (negative : Bool)
  | finite (negative : Bool) (magnitude : Magnitude)
  deriving DecidableEq

/-- The fields of the 64-bit interchange format: sign, biased exponent, fraction. -/
def Binary.ofFields (negative : Bool) (biased fraction : Nat) : Binary :=
  if biased == 2047 then
    if fraction == 0 then .infinite negative else .undefined
  else if biased == 0 then .finite negative ⟨fraction, -1074, false⟩
  else .finite negative ⟨Nat.pow 2 52 + fraction, (biased : Int) - 1075, fraction == 0 && 1 < biased⟩

def Binary.ofFloat (x : Float) : Binary :=
  let bits := x.toBits.toNat
  .ofFields (Nat.pow 2 63 ≤ bits) (bits / Nat.pow 2 52 % 2048) (bits % Nat.pow 2 52)

/-- The value as a fraction. -/
def Magnitude.numerator (m : Magnitude) : Nat := m.significand * Nat.pow 2 m.exponent.toNat
def Magnitude.denominator (m : Magnitude) : Nat := Nat.pow 2 (-m.exponent).toNat

/-- Nothing is rounded here: an integer equals a binary number only if it has the same value. -/
def Binary.isInteger (x : Binary) (n : Int) : Bool :=
  match x with
  | .finite negative m =>
      m.numerator == n.natAbs * m.denominator && (n == 0 || negative == decide (n < 0))
  | _ => false

end Facade.Number
