/-
  FuzzBundle.Text.Hex — hexadecimal digits.

  `digit` writes a nibble in lower case; `value?` reads either case and `lowerValue?` lower case
  only. Reading what was written gives the nibble back (`value?_digit`, `lowerValue?_digit`).
-/

namespace FuzzBundle.Hex

/-- The lower-case digit of a number below 16. -/
def digit (n : Nat) : Char :=
  if n < 10 then Char.ofNat ('0'.toNat + n) else Char.ofNat ('a'.toNat + (n - 10))

/-- The number of a digit of either case. -/
def value? (c : Char) : Option Nat :=
  if '0' ≤ c ∧ c ≤ '9' then some (c.toNat - '0'.toNat)
  else if 'a' ≤ c ∧ c ≤ 'f' then some (c.toNat - 'a'.toNat + 10)
  else if 'A' ≤ c ∧ c ≤ 'F' then some (c.toNat - 'A'.toNat + 10)
  else none

/-- Reading a written digit gives its number back. -/
theorem value?_digit {n : Nat} (h : n < 16) : value? (digit n) = some n := by
  have : ∀ m : Fin 16, value? (digit m) = some m.val := by decide
  exact this ⟨n, h⟩

/-- The number of a lower-case digit. -/
def lowerValue? (c : Char) : Option Nat :=
  if '0' ≤ c ∧ c ≤ '9' then some (c.toNat - '0'.toNat)
  else if 'a' ≤ c ∧ c ≤ 'f' then some (c.toNat - 'a'.toNat + 10)
  else none

theorem lowerValue?_digit {n : Nat} (h : n < 16) : lowerValue? (digit n) = some n := by
  have : ∀ m : Fin 16, lowerValue? (digit m) = some m.val := by decide
  exact this ⟨n, h⟩

/-- The two digits of a byte. -/
def byteDigits (b : UInt8) : List Char := [digit (b.toNat / 16), digit (b.toNat % 16)]

/-- The digits of a list of bytes. -/
def encode (bytes : List UInt8) : List Char := bytes.flatMap byteDigits

end FuzzBundle.Hex
