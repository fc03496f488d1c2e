/-
  FuzzBundle.Configuration.Setting — the text of a configuration.

  A configuration is a list of settings, one to a line, each a key and a value. Values are texts in
  four ways of quoting, integers in four bases, doubles, truth values and lists of texts. Tables and
  points of time have no place in a configuration and are refused with everything else that is not
  of this form, and so is a key that is set twice.

  The readers of this module take something off the beginning of a text and return it with what is
  left.
-/
import FuzzBundle.Number.Binary64
import FuzzBundle.Text.Blank
import FuzzBundle.Text.Hex

namespace FuzzBundle

/-- The value of a setting. -/
inductive Setting where
  | text (s : String)
  | integer (n : Int)
  | real (x : Binary64)
  | flag (b : Bool)
  | texts (items : List String)
  deriving DecidableEq, Repr

namespace Setting

/-! ## §1. Blanks, comments and line ends -/

/-- The blanks within a line. -/
def isBlank (c : Char) : Bool := c == ' ' || c == '\t'

/-- Whether a character may stand in a comment or, quotes and backslashes apart, in a text. -/
def isPlain (c : Char) : Bool := c == '\t' || (' ' ≤ c && c ≠ '\x7f')

/-- Skips the blanks. -/
def skipBlanks (cs : List Char) : List Char := cs.dropWhile isBlank

/-- Skips a comment, if there is one. -/
def skipComment : List Char → List Char
  | '#' :: rest => rest.dropWhile isPlain
  | cs => cs

/-- What follows a line end. -/
def afterLineEnd? : List Char → Option (List Char)
  | '\n' :: rest => some rest
  | '\r' :: '\n' :: rest => some rest
  | _ => none

/-- What follows the rest of a line that may hold a comment and nothing else. -/
def afterLine? (cs : List Char) : Option (List Char) :=
  match skipComment (skipBlanks cs) with
  | [] => some []
  | rest => afterLineEnd? rest

/-- Skips lines that hold nothing but comments, at most `fuel` of them, and blanks. -/
def skipLines : Nat → List Char → List Char
  | 0, cs => cs
  | fuel + 1, cs =>
    let cs := skipBlanks cs
    match afterLineEnd? (skipComment cs) with
    | some rest => skipLines fuel rest
    | none => cs

/-! ## §2. Texts -/

/-- The character with a number. -/
def charOf? (n : Nat) : Option Char := if n.isValidChar then some (Char.ofNat n) else none

/-- The character that some hexadecimal digits stand for. -/
def coded? (digits : List Char) : Option Char := do
  let values ← digits.mapM Hex.value?
  charOf? (values.foldl (fun n d => 16 * n + d) 0)

/-- The character that is written with a backslash and a letter. -/
def escape? : Char → Option Char
  | 'b' => some '\x08'
  | 't' => some '\t'
  | 'n' => some '\n'
  | 'f' => some '\x0c'
  | 'r' => some '\r'
  | '"' => some '"'
  | '\\' => some '\\'
  | _ => none

/-- The character of an escape, after its backslash, and what follows. -/
def escaped? : List Char → Option (Char × List Char)
  | 'u' :: rest =>
    if rest.length < 4 then none else (coded? (rest.take 4)).map fun c => (c, rest.drop 4)
  | 'U' :: rest =>
    if rest.length < 8 then none else (coded? (rest.take 8)).map fun c => (c, rest.drop 8)
  | c :: rest => (escape? c).map fun c => (c, rest)
  | [] => none

/-- The text up to the next quote, in at most `fuel` steps. -/
def line? : Nat → List Char → List Char → Option (List Char × List Char)
  | 0, _, _ => none
  | _ + 1, _, [] => none
  | fuel + 1, reversed, c :: rest =>
    if c = '"' then some (reversed.reverse, rest)
    else if c = '\\' then
      match escaped? rest with
      | some (c, rest) => line? fuel (c :: reversed) rest
      | none => none
    else if isPlain c then line? fuel (c :: reversed) rest
    else none

/-- The text up to the next apostrophe. -/
def rawLine? (cs : List Char) : Option (List Char × List Char) :=
  let inside := cs.takeWhile fun c => isPlain c && c ≠ '\''
  match cs.drop inside.length with
  | '\'' :: rest => some (inside, rest)
  | _ => none

/-- How many quotes at the beginning belong to a text that three of them end, and what follows the
end. Up to two more than three may stand there. -/
def blockEnd? (quote : Char) (cs : List Char) : Option (List Char × List Char) :=
  let run := (cs.takeWhile (· == quote)).length
  if run < 3 then none
  else if run ≤ 5 then some (List.replicate (run - 3) quote, cs.drop run)
  else some ([quote, quote], cs.drop 5)

/-- Skips blanks and line ends, at most `fuel` of them. -/
def skipSpace : Nat → List Char → List Char
  | 0, cs => cs
  | fuel + 1, cs =>
    match afterLineEnd? (skipBlanks cs) with
    | some rest => skipSpace fuel rest
    | none => skipBlanks cs

/-- The text up to three quotes, in at most `fuel` steps. A backslash at the end of a line joins
it with the next line that is not blank. -/
def block? : Nat → List Char → List Char → Option (List Char × List Char)
  | 0, _, _ => none
  | _ + 1, _, [] => none
  | fuel + 1, reversed, c :: rest =>
    match blockEnd? '"' (c :: rest) with
    | some (last, rest) => some (reversed.reverse ++ last, rest)
    | none =>
      match afterLineEnd? (c :: rest) with
      | some rest => block? fuel ('\n' :: reversed) rest
      | none =>
        if c = '\\' then
          match afterLineEnd? (skipBlanks rest) with
          | some rest => block? fuel reversed (skipSpace fuel rest)
          | none =>
            match escaped? rest with
            | some (c, rest) => block? fuel (c :: reversed) rest
            | none => none
        else if isPlain c then block? fuel (c :: reversed) rest
        else none

/-- The text up to three apostrophes, in at most `fuel` steps. -/
def rawBlock? : Nat → List Char → List Char → Option (List Char × List Char)
  | 0, _, _ => none
  | _ + 1, _, [] => none
  | fuel + 1, reversed, c :: rest =>
    match blockEnd? '\'' (c :: rest) with
    | some (last, rest) => some (reversed.reverse ++ last, rest)
    | none =>
      match afterLineEnd? (c :: rest) with
      | some rest => rawBlock? fuel ('\n' :: reversed) rest
      | none => if isPlain c then rawBlock? fuel (c :: reversed) rest else none

/-- Skips a line end right after the opening of a text of several lines. -/
def skipLineEnd (cs : List Char) : List Char := (afterLineEnd? cs).getD cs

/-- A text on one line, quoted in either way. -/
def shortText? : List Char → Option (List Char × List Char)
  | '"' :: rest => line? (rest.length + 1) [] rest
  | '\'' :: rest => rawLine? rest
  | _ => none

/-- A text, quoted in any way. -/
def quoted? (cs : List Char) : Option (List Char × List Char) :=
  match cs with
  | '"' :: '"' :: '"' :: rest =>
    let rest := skipLineEnd rest
    block? (rest.length + 1) [] rest
  | '\'' :: '\'' :: '\'' :: rest =>
    let rest := skipLineEnd rest
    rawBlock? (rest.length + 1) [] rest
  | cs => shortText? cs

/-! ## §3. Numbers -/

/-- One or more digits, with single underscores between them. An underscore must have a digit on
either side. -/
def digits? (isDigit : Char → Bool) : List Char → Option (List Char × List Char)
  | [] => none
  | c :: rest =>
    if isDigit c then
      match rest with
      | [] => some ([c], [])
      | '_' :: more => (digits? isDigit more).map fun found => (c :: found.1, found.2)
      | d :: more =>
        if isDigit d then (digits? isDigit (d :: more)).map fun found => (c :: found.1, found.2)
        else some ([c], d :: more)
    else none

/-- The number that digits of a base stand for. -/
def valueOf (base : Nat) (digits : List Char) : Nat :=
  digits.foldl (fun n c => base * n + (Hex.value? c).getD 0) 0

/-- An integer that fits into 64 bits. -/
def integer? (n : Int) : Option Setting :=
  if -(Nat.pow 2 63 : Int) ≤ n ∧ n < Nat.pow 2 63 then some (.integer n) else none

/-- An integer in a base other than ten, after the letters that say so. -/
def based? (base : Nat) (isDigit : Char → Bool) (cs : List Char) :
    Option (Setting × List Char) := do
  let (digits, rest) ← digits? isDigit cs
  return (← integer? (valueOf base digits), rest)

/-- The digits before a point: one or more, and a zero stands alone. -/
def whole? : List Char → Option (List Char × List Char)
  | '0' :: rest => some (['0'], rest)
  | cs => digits? Char.isDigit cs

/-- A sign in front of something, and whether it is minus. -/
def sign : List Char → Bool × List Char
  | '-' :: rest => (true, rest)
  | '+' :: rest => (false, rest)
  | cs => (false, cs)

/-- The digits after a point, if there is one. -/
def fraction? : List Char → Option (Option (List Char) × List Char)
  | '.' :: rest => (digits? Char.isDigit rest).map fun found => (some found.1, found.2)
  | cs => some (none, cs)

/-- An exponent, if there is one. -/
def exponent? : List Char → Option (Option Int × List Char)
  | c :: rest =>
    if c = 'e' ∨ c = 'E' then
      let (minus, rest) := sign rest
      (digits? Char.isDigit rest).map fun found =>
        let n : Int := valueOf 10 found.1
        (some (if minus then -n else n), found.2)
    else some (none, c :: rest)
  | [] => some (none, [])

/-- A double. What is too large is refused, unless it is negative. -/
def real? (minus : Bool) (whole fraction : List Char) (exponent : Int) : Option Setting :=
  let x := Binary64.ofDecimal minus (valueOf 10 (whole ++ fraction)) (exponent - fraction.length)
  if x = .infinite false then none else some (.real x)

/-- A number in decimal digits, after its sign. -/
def decimal? (minus : Bool) (cs : List Char) : Option (Setting × List Char) := do
  let (whole, rest) ← whole? cs
  let (fraction, rest) ← fraction? rest
  let (exponent, rest) ← exponent? rest
  if fraction.isSome ∨ exponent.isSome then
    return (← real? minus whole (fraction.getD []) (exponent.getD 0), rest)
  else
    let n : Int := valueOf 10 whole
    return (← integer? (if minus then -n else n), rest)

/-- A number. -/
def number? (cs : List Char) : Option (Setting × List Char) :=
  let (minus, rest) := sign cs
  match rest with
  | 'i' :: 'n' :: 'f' :: rest => some (.real (.infinite minus), rest)
  | 'n' :: 'a' :: 'n' :: rest => some (.real .nan, rest)
  | rest =>
    match cs with
    | '0' :: 'x' :: rest => based? 16 (fun c => (Hex.value? c).isSome) rest
    | '0' :: 'o' :: rest => based? 8 (fun c => '0' ≤ c && c ≤ '7') rest
    | '0' :: 'b' :: rest => based? 2 (fun c => c == '0' || c == '1') rest
    | _ => decimal? minus rest

/-! ## §4. Values -/

/-- The rest of a list of texts, after its opening bracket or a comma, in at most `fuel` steps. -/
def items? : Nat → List Char → Option (List String × List Char)
  | 0, _ => none
  | fuel + 1, cs =>
    match skipLines fuel cs with
    | ']' :: rest => some ([], rest)
    | cs =>
      match quoted? cs with
      | none => none
      | some (item, rest) =>
        match skipLines fuel rest with
        | ']' :: rest => some ([String.ofList item], rest)
        | ',' :: rest =>
          (items? fuel rest).map fun found => (String.ofList item :: found.1, found.2)
        | _ => none

/-- A value. -/
def value? (cs : List Char) : Option (Setting × List Char) :=
  match cs with
  | '"' :: _ | '\'' :: _ => (quoted? cs).map fun found => (.text (String.ofList found.1), found.2)
  | '[' :: rest => (items? (rest.length + 1) rest).map fun found => (.texts found.1, found.2)
  | 't' :: 'r' :: 'u' :: 'e' :: rest => some (.flag true, rest)
  | 'f' :: 'a' :: 'l' :: 's' :: 'e' :: rest => some (.flag false, rest)
  | cs => number? cs

/-! ## §5. Settings -/

/-- Whether a character may stand in a key that is not quoted. -/
def isKeyChar (c : Char) : Bool := c.isAlphanum || c == '-' || c == '_'

/-- A key. -/
def key? (cs : List Char) : Option (List Char × List Char) :=
  match cs with
  | '"' :: _ | '\'' :: _ => shortText? cs
  | cs =>
    let key := cs.takeWhile isKeyChar
    if key.isEmpty then none else some (key, cs.dropWhile isKeyChar)

/-- A key with its value, up to the end of the line. -/
def setting? (cs : List Char) : Option ((String × Setting) × List Char) := do
  let (key, rest) ← key? cs
  match skipBlanks rest with
  | '=' :: rest =>
    let (value, rest) ← value? (skipBlanks rest)
    return ((String.ofList key, value), ← afterLine? rest)
  | _ => none

/-- All settings, in at most `fuel` lines. -/
def settings? : Nat → List Char → Option (List (String × Setting))
  | 0, _ => none
  | fuel + 1, cs =>
    let cs := skipBlanks cs
    if cs.isEmpty then some []
    else
      match afterLine? cs with
      | some rest => settings? fuel rest
      | none =>
        match setting? cs with
        | some (setting, rest) => (settings? fuel rest).map (setting :: ·)
        | none => none

/-- Whether no key occurs twice. -/
def keysOnce (settings : List (String × Setting)) : Bool :=
  settings.all fun setting => (settings.filter (·.1 == setting.1)).length ≤ 1

/-- The settings in a text. A mark of byte order at its beginning is skipped. -/
def read? (text : String) : Option (List (String × Setting)) :=
  let cs :=
    match text.toList with
    | '\uFEFF' :: rest => rest
    | cs => cs
  (settings? (cs.length + 1) cs).filter keysOnce

end Setting

end FuzzBundle
