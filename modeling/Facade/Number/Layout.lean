import Facade.Number.Shortest

/-! How a decimal is written: positionally when its leading digit stands between the fourth
place after the point and the sixteenth before it, otherwise with a signed exponent of at
least two digits. A positional number always shows a point. -/
namespace Facade.Number

def zeros (n : Nat) : List Char := List.replicate n '0'

/-- The digits without their trailing zeros. -/
def Decimal.figures (d : Decimal) : List Char :=
  ((Nat.toDigits 10 d.digits).reverse.dropWhile (· == '0')).reverse

/-- How many figures stand before the point; zero or less when the number starts after it. -/
def Decimal.pointAt (d : Decimal) : Int := digitCount d.digits + d.exponent

/-- The point may fall before, inside or after the figures. -/
def positional (figures : List Char) (point : Int) : List Char :=
  let whole := point.toNat
  if point ≤ 0 then '0' :: '.' :: zeros (-point).toNat ++ figures
  else if whole < figures.length then figures.take whole ++ '.' :: figures.drop whole
  else figures ++ zeros (whole - figures.length) ++ ['.', '0']

def exponentText (exponent : Int) : List Char :=
  let digits := Nat.toDigits 10 exponent.natAbs
  'e' :: (if exponent < 0 then '-' else '+') :: zeros (2 - digits.length) ++ digits

def scientific (figures : List Char) (exponent : Int) : List Char :=
  match figures with
  | [] => []
  | [only] => only :: exponentText exponent
  | first :: rest => first :: '.' :: rest ++ exponentText exponent

def Decimal.layout (d : Decimal) : List Char :=
  let leading := d.pointAt - 1
  if -4 ≤ leading && leading < 16 then positional d.figures d.pointAt
  else scientific d.figures leading

def Binary.text : Binary → String
  | .undefined => "nan"
  | .infinite negative => if negative then "-inf" else "inf"
  | .finite negative m =>
      let written := if m.significand == 0 then ['0', '.', '0'] else m.shortest.layout
      String.ofList (if negative then '-' :: written else written)

example : (Binary.ofFloat 1e15).text = "1000000000000000.0" := by decide +kernel
example : (Binary.ofFloat 1e16).text = "1e+16" := by decide +kernel
example : (Binary.ofFloat 0.0001).text = "0.0001" := by decide +kernel
example : (Binary.ofFloat 0.00001).text = "1e-05" := by decide +kernel

end Facade.Number
