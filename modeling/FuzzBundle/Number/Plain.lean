/-
  FuzzBundle.Number.Plain — doubles in plain decimals.

  A double is written with its shortest digits and never with an exponent; an integer has no point.
  Of two equally near decimals the larger one is taken.
-/
import FuzzBundle.Number.Decimal

namespace FuzzBundle

/-- The text of a decimal without an exponent. -/
def Decimal.plain (d : Decimal) : List Char :=
  let digits := Nat.toDigits 10 d.digits
  let point : Int := d.exponent + digits.length
  if point ≤ 0 then '0' :: '.' :: List.replicate (-point).toNat '0' ++ digits
  else if (digits.length : Int) ≤ point then
    digits ++ List.replicate (point.toNat - digits.length) '0'
  else digits.take point.toNat ++ '.' :: digits.drop point.toNat

/-- The text of a double without an exponent. -/
def Binary64.plain (x : Binary64) : String :=
  match x with
  | .nan => "NaN"
  | .infinite minus => if minus then "-inf" else "inf"
  | .finite minus significand exponent =>
    let magnitude :=
      if significand = 0 then ['0']
      else ((Decimal.shortest .up significand exponent).map Decimal.plain).getD ['0']
    String.ofList (if minus then '-' :: magnitude else magnitude)

end FuzzBundle
