/-
  FuzzBundle.Json.Printer — the text of a document.

  `Written.compact` puts a document on one line without blanks, `Written.pretty` puts every item and
  field on a line of its own, indented by four spaces a level. Both write strings and numbers alike:
  a string escapes quotes, backslashes and control characters and nothing else, and a double is
  written with its shortest digits and always shows that it is one (`NumberFormat`).
-/
import FuzzBundle.Json.Written
import FuzzBundle.Number.Decimal
import FuzzBundle.Text.Hex

namespace FuzzBundle

/-! ## §1. Numbers -/

/-- How a double is laid out: its point stands among zeros while its position is between the two
bounds, and otherwise there is an exponent. -/
structure NumberFormat where
  lowestPoint : Int
  highestPoint : Int
  deriving DecidableEq

/-- Documents write a double positionally from `0.00001` up to 16 digits before the point. -/
def Json.Number.format : NumberFormat := ⟨-4, 16⟩

/-- The decimal digits of a natural number. -/
def decimalDigits (n : Nat) : List Char := Nat.toDigits 10 n

/-- Digits with a point after the first `point` of them, filled up with zeros on either side. -/
def positional (digits : List Char) (point : Int) : List Char :=
  if point ≤ 0 then '0' :: '.' :: List.replicate (-point).toNat '0' ++ digits
  else if (digits.length : Int) ≤ point then
    digits ++ List.replicate (point.toNat - digits.length) '0' ++ ['.', '0']
  else digits.take point.toNat ++ '.' :: digits.drop point.toNat

/-- Digits with a point after the first of them, and the power of ten with its sign. -/
def scientific (digits : List Char) (point : Int) : List Char :=
  let mantissa :=
    match digits with
    | [] => []
    | [d] => [d]
    | d :: rest => d :: '.' :: rest
  let exponent := point - 1
  mantissa ++ 'e' :: (if exponent < 0 then '-' else '+') :: decimalDigits exponent.natAbs

/-- The text of a decimal in a format. -/
def NumberFormat.write (f : NumberFormat) (d : Decimal) : List Char :=
  let digits := decimalDigits d.digits
  let point : Int := d.exponent + digits.length
  if f.lowestPoint ≤ point ∧ point ≤ f.highestPoint then positional digits point
  else scientific digits point

/-- The text of a double. A number that is not finite has none, and null stands for it. -/
def Json.Number.realText (x : Binary64) : List Char :=
  match x with
  | .finite minus significand exponent =>
    let magnitude :=
      if significand = 0 then ['0', '.', '0']
      else
        match Decimal.shortest .even significand exponent with
        | some d => Json.Number.format.write d
        | none => ['0', '.', '0']
    if minus then '-' :: magnitude else magnitude
  | _ => ['n', 'u', 'l', 'l']

/-- The text of a number. -/
def Json.Number.text : Json.Number → List Char
  | .natural n => decimalDigits n
  | .negative n => '-' :: decimalDigits n
  | .real x => realText x

namespace Written

/-! ## §2. Strings -/

/-- The text that stands for a character inside a string. -/
def escapeChar (c : Char) : List Char :=
  if c = '"' then ['\\', '"']
  else if c = '\\' then ['\\', '\\']
  else if c = '\x08' then ['\\', 'b']
  else if c = '\t' then ['\\', 't']
  else if c = '\n' then ['\\', 'n']
  else if c = '\x0c' then ['\\', 'f']
  else if c = '\r' then ['\\', 'r']
  else if c < ' ' then
    ['\\', 'u', '0', '0', Hex.digit (c.toNat / 16), Hex.digit (c.toNat % 16)]
  else [c]

/-- The text of a string between its quotes. -/
def quoted (s : String) : List Char := '"' :: s.toList.flatMap escapeChar ++ ['"']

/-! ## §3. Documents on one line -/

mutual

/-- The characters of a document on one line. -/
def compactChars : Written → List Char
  | .null => ['n', 'u', 'l', 'l']
  | .bool true => ['t', 'r', 'u', 'e']
  | .bool false => ['f', 'a', 'l', 's', 'e']
  | .number n => n.text
  | .string s => quoted s
  | .array items => '[' :: compactItems items ++ [']']
  | .object fields => '\x7b' :: compactFields fields ++ ['\x7d']
  | .invalid => ['n', 'u', 'l', 'l']

/-- The items of an array with commas between them. -/
def compactItems : List Written → List Char
  | [] => []
  | [item] => compactChars item
  | item :: rest => compactChars item ++ ',' :: compactItems rest

/-- The fields of an object with commas between them. -/
def compactFields : List (String × Written) → List Char
  | [] => []
  | [(key, value)] => quoted key ++ ':' :: compactChars value
  | (key, value) :: rest => quoted key ++ ':' :: compactChars value ++ ',' :: compactFields rest

end

/-- The text of a document on one line. -/
def compact (w : Written) : String := String.ofList (compactChars w)

/-! ## §4. Documents on many lines -/

/-- A line break followed by the indentation of a level. -/
def newLine (level : Nat) : List Char := '\n' :: List.replicate (4 * level) ' '

mutual

/-- The characters of a document whose closing bracket stands at a level of indentation. -/
def prettyChars (level : Nat) : Written → List Char
  | .array [] => ['[', ']']
  | .array (item :: rest) => '[' :: prettyItems (level + 1) (item :: rest) ++ newLine level ++ [']']
  | .object [] => ['\x7b', '\x7d']
  | .object (field :: rest) =>
    '\x7b' :: prettyFields (level + 1) (field :: rest) ++ newLine level ++ ['\x7d']
  | .null => ['n', 'u', 'l', 'l']
  | .bool true => ['t', 'r', 'u', 'e']
  | .bool false => ['f', 'a', 'l', 's', 'e']
  | .number n => n.text
  | .string s => quoted s
  | .invalid => ['n', 'u', 'l', 'l']

/-- The items of an array, each on a line of its own. -/
def prettyItems (level : Nat) : List Written → List Char
  | [] => []
  | [item] => newLine level ++ prettyChars level item
  | item :: rest => newLine level ++ prettyChars level item ++ ',' :: prettyItems level rest

/-- The fields of an object, each on a line of its own. -/
def prettyFields (level : Nat) : List (String × Written) → List Char
  | [] => []
  | [(key, value)] => newLine level ++ quoted key ++ ':' :: ' ' :: prettyChars level value
  | (key, value) :: rest =>
    newLine level ++ quoted key ++ ':' :: ' ' :: prettyChars level value ++
      ',' :: prettyFields level rest

end

/-- The text of a document with every item and field on a line of its own. -/
def pretty (w : Written) : String := String.ofList (prettyChars 0 w)

end Written

/-- The text of a value on one line, fields in ascending key order. -/
def Json.compact (value : Json) : String := value.written.compact

end FuzzBundle
