/-
  FuzzBundle.Text.Natural — natural numbers in decimal digits.

  `natural?` reads a text of digits and nothing else; `bounded?` also wants the number to fit
  below a bound and allows one plus sign in front.
-/

namespace FuzzBundle.Text

/-- The number written by digits, after `acc`. -/
def naturalFrom (acc : Nat) : List Char → Option Nat
  | [] => some acc
  | c :: rest =>
    if c.isDigit then naturalFrom (acc * 10 + (c.toNat - '0'.toNat)) rest else none

/-- The number that is written in one or more decimal digits. -/
def natural? : List Char → Option Nat
  | [] => none
  | cs => naturalFrom 0 cs

/-- The number below `bound` that is written in decimal digits, perhaps after a plus sign. -/
def bounded? (bound : Nat) (cs : List Char) : Option Nat :=
  let digits :=
    match cs with
    | '+' :: rest => rest
    | cs => cs
  match natural? digits with
  | some n => if n < bound then some n else none
  | none => none

/-- The number of characters that 64 bits can count. -/
def word64 : Nat := Nat.pow 2 64

end FuzzBundle.Text
