/-
  FuzzBundle.Number.Decimal — the shortest decimal of a double.

  `Decimal.shortest` tries one digit, two digits, and so on; at each length it looks at the two
  decimals of that length around the number and keeps those that `Binary64.ofDecimal` takes back
  to it. The first length with a hit wins, and of two hits the nearer one; a `Tie` says which one
  that is when both are equally near. Because a decimal is accepted only after it was read back,
  what is found always reads back (`search_readsBack`).
-/
import FuzzBundle.Number.Binary64

namespace FuzzBundle

/-- The number `digits · 10 ^ exponent`. -/
structure Decimal where
  digits : Nat
  exponent : Int
  deriving DecidableEq, Repr, Inhabited

/-- Which of two equally near decimals is taken: the one with the even last digit, or the larger. -/
inductive Tie where
  | even
  | up
  deriving DecidableEq, Repr

/-- Whether the lower of two equally near decimals is taken. -/
def Tie.takesLower (tie : Tie) (below : Nat) : Bool :=
  match tie with
  | .even => below % 2 == 0
  | .up => false

namespace Decimal

/-- How many decimal digits a natural number has. -/
def lengthOf (n : Nat) : Nat := (Nat.toDigits 10 n).length

/-- The position of the decimal point of `num / den` counted from its first digit: the `p` with
`10 ^ (p - 1) ≤ num / den < 10 ^ p`. Both arguments are positive. -/
def pointOf (num den : Nat) : Int :=
  if den ≤ num then lengthOf (num / den)
  else 1 - (lengthOf ((den + num - 1) / num - 1) : Int)

/-- Drops trailing zero digits. -/
def trimmed (fuel : Nat) (d : Decimal) : Decimal :=
  match fuel with
  | 0 => d
  | fuel + 1 =>
    if d.digits ≠ 0 ∧ d.digits % 10 = 0 then trimmed fuel ⟨d.digits / 10, d.exponent + 1⟩ else d

/-- The decimals `below` and `below + 1` of one grid around `num / den`, nearer first. `rest` and
`unit` say how far the number lies above the lower one: `rest / unit` of a step. -/
def neighbours (tie : Tie) (below rest unit : Nat) : List Nat :=
  if 2 * rest < unit ∨ (2 * rest = unit ∧ tie.takesLower below) then [below, below + 1]
  else [below + 1, below]

/-- The candidates for `num / den` on the grid of multiples of `10 ^ exponent`. -/
def candidates (tie : Tie) (num den : Nat) (exponent : Int) : List Decimal :=
  let scaledNum := num * Nat.pow 10 (-exponent).toNat
  let scaledDen := den * Nat.pow 10 exponent.toNat
  (neighbours tie (scaledNum / scaledDen) (scaledNum % scaledDen) scaledDen).map (⟨·, exponent⟩)

/-- The first candidate over the given grids that reads back as `x`. -/
def search (tie : Tie) (x : Binary64) (num den : Nat) : List Int → Option Decimal
  | [] => none
  | exponent :: rest =>
    match (candidates tie num den exponent).find?
        (fun d => Binary64.ofDecimal false d.digits d.exponent == x) with
    | some d => some d
    | none => search tie x num den rest

/-- The shortest decimal that reads back as the positive double `significand · 2 ^ exponent`. -/
def shortest (tie : Tie) (significand : Nat) (exponent : Int) : Option Decimal :=
  let num := significand * Nat.pow 2 exponent.toNat
  let den := Nat.pow 2 (-exponent).toNat
  let point := pointOf num den
  let grids := (List.range 17).map (fun (n : Nat) => point - (n + 1 : Nat))
  (search tie (.finite false significand exponent) num den grids).map (trimmed 20)

/-- What the search finds reads back as the number searched for. -/
theorem search_readsBack {tie : Tie} {x : Binary64} {num den : Nat} {grids : List Int}
    {d : Decimal} (h : search tie x num den grids = some d) :
    Binary64.ofDecimal false d.digits d.exponent = x := by
  induction grids with
  | nil => simp [search] at h
  | cons exponent rest ih =>
    rw [search] at h
    split at h
    · next e he =>
      cases h
      simpa using List.find?_some he
    · exact ih h

end Decimal

end FuzzBundle
