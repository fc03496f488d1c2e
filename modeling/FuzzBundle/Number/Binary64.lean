/-
  FuzzBundle.Number.Binary64 — double-precision numbers in exact integer arithmetic.

  A finite double is kept as its sign, its significand and its power of two, so that every
  operation is a computation on naturals followed by one rounding (`ofRatio`). No machine
  floating point is involved, and closed instances can be evaluated by the kernel.

  Every finite value that `ofRatio` returns is canonical: the significand is below `2^53`, the
  exponent is at least `-1074`, and it is larger than that only when the significand has its full
  53 bits. Two canonical finite doubles are therefore the same number exactly when they are the
  same term, zeros of different sign apart.
-/

namespace FuzzBundle

/-- A double: `± significand · 2 ^ exponent`, an infinity, or not a number. -/
inductive Binary64 where
  | finite (negative : Bool) (significand : Nat) (exponent : Int)
  | infinite (negative : Bool)
  | nan
  deriving DecidableEq, Repr, Inhabited

namespace Binary64

/-! ## §1. Rounding -/

/-- The integer nearest to `num / den`; of two equally near ones, the even one. -/
def nearestEven (num den : Nat) : Nat :=
  let quotient := num / den
  let remainder := num % den
  if 2 * remainder < den then quotient
  else if den < 2 * remainder then quotient + 1
  else quotient + quotient % 2

/-- Zero with the given sign. -/
def zero (negative : Bool) : Binary64 := .finite negative 0 (-1074)

/-- The exponent at which `num / den` has a significand of 53 bits, or the least exponent there
is when the number is too small for that. Both arguments are positive. -/
def exponentFor (num den : Nat) : Int :=
  let guess : Int := (num.log2 : Int) - den.log2 - 52
  let short := num * Nat.pow 2 (-guess).toNat < Nat.pow 2 52 * (den * Nat.pow 2 guess.toNat)
  max (if short then guess - 1 else guess) (-1074)

/-- The double nearest to `± num / den`, for a positive `den`; ties go to the even significand, and
what lies beyond the largest double becomes infinite. -/
def ofRatio (negative : Bool) (num den : Nat) : Binary64 :=
  if num = 0 then zero negative
  else
    let exponent := exponentFor num den
    let significand :=
      nearestEven (num * Nat.pow 2 (-exponent).toNat) (den * Nat.pow 2 exponent.toNat)
    let carried := significand = Nat.pow 2 53
    let significand := if carried then Nat.pow 2 52 else significand
    let exponent := if carried then exponent + 1 else exponent
    if 971 < exponent then .infinite negative else .finite negative significand exponent

/-- The double nearest to a natural number. -/
def ofNat (n : Nat) : Binary64 := ofRatio false n 1

/-- The double nearest to `± digits · 10 ^ exponent`. Exponents far outside the range of doubles are
answered without computing the power. -/
def ofDecimal (negative : Bool) (digits : Nat) (exponent : Int) : Binary64 :=
  let length : Int := (Nat.toDigits 10 digits).length
  if digits = 0 then zero negative
  else if 310 < exponent + length then .infinite negative
  else if exponent + length < -330 then zero negative
  else ofRatio negative (digits * Nat.pow 10 exponent.toNat) (Nat.pow 10 (-exponent).toNat)

/-! ## §2. Arithmetic -/

/-- The number with its sign turned. -/
def neg : Binary64 → Binary64
  | .finite negative significand exponent => .finite (!negative) significand exponent
  | .infinite negative => .infinite (!negative)
  | .nan => .nan

/-- The rounded product. -/
def mul : Binary64 → Binary64 → Binary64
  | .nan, _ | _, .nan => .nan
  | .infinite s, .infinite t => .infinite (s != t)
  | .infinite s, .finite t m _ | .finite t m _, .infinite s =>
    if m = 0 then .nan else .infinite (s != t)
  | .finite s m p, .finite t n q =>
    ofRatio (s != t) (m * n * Nat.pow 2 (p + q).toNat) (Nat.pow 2 (-(p + q)).toNat)

/-- The rounded quotient of a finite number by a positive finite one. -/
def divFinite (negative : Bool) (m : Nat) (p : Int) (n : Nat) (q : Int) : Binary64 :=
  ofRatio negative (m * Nat.pow 2 (p - q).toNat) (n * Nat.pow 2 (q - p).toNat)

/-- The rounded quotient. -/
def div : Binary64 → Binary64 → Binary64
  | .nan, _ | _, .nan | .infinite _, .infinite _ => .nan
  | .infinite s, .finite t _ _ => .infinite (s != t)
  | .finite s _ _, .infinite t => zero (s != t)
  | .finite s m p, .finite t n q =>
    if n = 0 then (if m = 0 then .nan else .infinite (s != t))
    else divFinite (s != t) m p n q

/-! ## §3. Order -/

/-- `± significand · 2 ^ (exponent - unit)`, an integer when `unit` is at most `exponent`. -/
def scaled (negative : Bool) (significand : Nat) (exponent unit : Int) : Int :=
  let magnitude : Int := (significand * Nat.pow 2 (exponent - unit).toNat : Nat)
  if negative then -magnitude else magnitude

/-- Order of numbers. It is false as soon as one side is not a number, and both zeros are equal. -/
def le : Binary64 → Binary64 → Bool
  | .nan, _ | _, .nan => false
  | .infinite s, .infinite t => s || !t
  | .infinite s, .finite _ _ _ => s
  | .finite _ _ _, .infinite t => !t
  | .finite s m p, .finite t n q =>
    decide (scaled s m p (min p q) ≤ scaled t n q (min p q))

end Binary64

end FuzzBundle
