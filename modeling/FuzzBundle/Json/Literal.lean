/-
  FuzzBundle.Json.Literal — the number that a literal denotes.

  A literal without fraction and exponent that fits into 64 bits is an integer. Any other literal
  is a double, and it is computed in the plain way: leading digits are gathered in a 64-bit
  significand, the digits that no longer fit are dropped (those before the point still count as
  powers of ten), and the significand is multiplied or divided once by a power of ten. Only powers
  up to `10 ^ 308` are at hand; a smaller number is reached by repeated division. The result is
  within a few units of the last place of the exact value, and not always the nearest double.
-/
import FuzzBundle.Json.Basic

namespace FuzzBundle

/-- A number as it is written: sign, integer digits, fraction digits if there is a point, and signed
exponent digits if there is an exponent. -/
structure Json.Literal where
  negative : Bool
  whole : List Nat
  fraction : Option (List Nat)
  exponent : Option (Bool × List Nat)
  deriving DecidableEq, Repr

namespace Json.Literal

/-- The largest significand. -/
def significandMax : Nat := Nat.pow 2 64 - 1

/-- Appends digits to a significand as long as it fits, and returns the digits left over. -/
def gather (significand : Nat) : List Nat → Nat × List Nat
  | [] => (significand, [])
  | d :: rest =>
    if significandMax < significand * 10 + d then (significand, d :: rest)
    else gather (significand * 10 + d) rest

/-- The double of a power of ten. -/
def powerOfTen (n : Nat) : Binary64 := .ofDecimal false 1 n

/-- `significand · 10 ^ exponent` by one multiplication or division, after divisions by `10 ^ 308`
for an exponent below `-308`. Nothing when the number is too large. Five divisions bring every
significand to zero, so more are not made. -/
def scale? (significand : Nat) (exponent : Int) : Option Binary64 :=
  let start := Binary64.ofNat significand
  if 0 ≤ exponent then
    if significand = 0 then some start
    else if 308 < exponent then none
    else
      match start.mul (powerOfTen exponent.toNat) with
      | .infinite _ => none
      | x => some x
  else
    let down := (-exponent).toNat
    let rounds := (down - 1) / 308
    let divided := (List.replicate (min rounds 5) 308).foldl (fun x n => x.div (powerOfTen n)) start
    some (divided.div (powerOfTen (down - 308 * rounds)))

/-- The magnitude of an exponent, or nothing when it does not fit into 31 bits. -/
def exponentMagnitude? (digits : List Nat) : Option Nat :=
  let n := digits.foldl (fun n d => if n < Nat.pow 2 40 then n * 10 + d else n) 0
  if n < Nat.pow 2 31 then some n else none

/-- The double of a literal, or nothing when it is too large. -/
def real? (l : Literal) : Option Binary64 :=
  let (significand, dropped) := gather 0 l.whole
  let fraction := l.fraction.getD []
  let (significand, unused) := gather significand fraction
  let point : Int := dropped.length - (fraction.length - unused.length : Nat)
  let magnitude :=
    match l.exponent with
    | none => scale? significand point
    | some (negative, digits) =>
      match exponentMagnitude? digits with
      | some n => scale? significand (if negative then point - n else point + n)
      | none => if significand ≠ 0 ∧ !negative then none else some (.zero false)
  magnitude.map fun x => if l.negative then x.neg else x

/-- The number of a literal, or nothing when it is too large. -/
def number? (l : Literal) : Option Json.Number :=
  let (magnitude, dropped) := gather 0 l.whole
  if l.fraction.isNone ∧ l.exponent.isNone ∧ dropped = [] then
    if !l.negative then some (.natural magnitude)
    else if 0 < magnitude ∧ magnitude ≤ Nat.pow 2 63 then some (.negative magnitude)
    else l.real?.map .real
  else l.real?.map .real

end Json.Literal

end FuzzBundle
