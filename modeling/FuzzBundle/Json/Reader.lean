/-
  FuzzBundle.Json.Reader — reading a document from its text.

  `Written.scan` reads one document at the start of a text and returns what follows it;
  `Written.read` wants the whole text to be one document between blanks. The grammar is the strict
  one: no comments, no trailing commas, no leading zeros, no raw control characters in strings.

  The recursion is bounded by a number that `scan` takes from the length of the text. Every step
  down takes one unit, and two steps consume at least one character, so that the bound is never
  met on a document that is there.
-/
import FuzzBundle.Json.Written
import FuzzBundle.Json.Literal
import FuzzBundle.Text.Hex

namespace FuzzBundle.Written

/-! ## §1. Blanks and strings -/

/-- The four characters that may stand between the parts of a document. -/
def isBlank (c : Char) : Bool := c == ' ' || c == '\t' || c == '\n' || c == '\r'

/-- What follows the blanks at the start of a text. -/
def skipBlanks (cs : List Char) : List Char := cs.dropWhile isBlank

/-- The text of a string read so far, last character first. `pending` is a high surrogate that waits
for its partner, and `paired` says that none was left alone. -/
structure TextState where
  reversed : List Char := []
  pending : Option Nat := none
  paired : Bool := true

/-- Adds a character. -/
def TextState.push (s : TextState) (c : Char) : TextState :=
  ⟨c :: s.reversed, none, s.paired && s.pending.isNone⟩

/-- Adds a code unit written as an escape. A high surrogate followed by a low one is one
character. -/
def TextState.pushUnit (s : TextState) (unit : Nat) : TextState :=
  if 0xD800 ≤ unit ∧ unit < 0xDC00 then
    ⟨s.reversed, some unit, s.paired && s.pending.isNone⟩
  else if 0xDC00 ≤ unit ∧ unit < 0xE000 then
    match s.pending with
    | some high =>
      let code := 0x10000 + (high - 0xD800) * 0x400 + (unit - 0xDC00)
      ⟨Char.ofNat code :: s.reversed, none, s.paired⟩
    | none => ⟨s.reversed, none, false⟩
  else s.push (Char.ofNat unit)

/-- The finished text, unless a surrogate was left alone. -/
def TextState.text? (s : TextState) : Option String :=
  if s.paired && s.pending.isNone then some (String.ofList s.reversed.reverse) else none

/-- The character of a one-letter escape. -/
def escape? : Char → Option Char
  | '"' => some '"'
  | '\\' => some '\\'
  | '/' => some '/'
  | 'b' => some '\x08'
  | 'f' => some '\x0c'
  | 'n' => some '\n'
  | 'r' => some '\r'
  | 't' => some '\t'
  | _ => none

/-- The code unit of four hexadecimal digits. -/
def unit? (a b c d : Char) : Option Nat :=
  match Hex.value? a, Hex.value? b, Hex.value? c, Hex.value? d with
  | some a, some b, some c, some d => some (((a * 16 + b) * 16 + c) * 16 + d)
  | _, _, _, _ => none

/-- Reads a string after its opening quote, up to and including the closing one. -/
def scanText (state : TextState) : List Char → Option (Option String × List Char)
  | [] => none
  | ch :: rest =>
    if ch = '"' then some (state.text?, rest)
    else if ch = '\\' then
      match rest with
      | 'u' :: a :: b :: c :: d :: rest' =>
        match unit? a b c d with
        | some unit => scanText (state.pushUnit unit) rest'
        | none => none
      | e :: rest' =>
        match escape? e with
        | some c => scanText (state.push c) rest'
        | none => none
      | [] => none
    else if ch < ' ' then none
    else scanText (state.push ch) rest

/-! ## §2. Numbers -/

/-- The decimal digits at the start of a text, and what follows them. -/
def scanDigits : List Char → List Nat × List Char
  | [] => ([], [])
  | c :: rest =>
    if c.isDigit then
      let (digits, after) := scanDigits rest
      ((c.toNat - '0'.toNat) :: digits, after)
    else ([], c :: rest)

/-- The fraction of a literal, if a point follows. It has at least one digit. -/
def scanFraction : List Char → Option (Option (List Nat) × List Char)
  | '.' :: rest =>
    match scanDigits rest with
    | ([], _) => none
    | (digits, after) => some (some digits, after)
  | cs => some (none, cs)

/-- The sign of an exponent, and what follows it. -/
def scanSign : List Char → Bool × List Char
  | '-' :: rest => (true, rest)
  | '+' :: rest => (false, rest)
  | cs => (false, cs)

/-- The exponent of a literal, if the letter for it follows. It has at least one digit. -/
def scanExponent : List Char → Option (Option (Bool × List Nat) × List Char)
  | [] => some (none, [])
  | c :: rest =>
    if c = 'e' ∨ c = 'E' then
      let (negative, rest) := scanSign rest
      match scanDigits rest with
      | ([], _) => none
      | (digits, after) => some (some (negative, digits), after)
    else some (none, c :: rest)

/-- Reads a literal without its sign. A leading zero stands alone. -/
def scanUnsigned (negative : Bool) (cs : List Char) : Option (Json.Literal × List Char) := do
  let (whole, rest) := scanDigits cs
  match whole with
  | [] | 0 :: _ :: _ => none
  | _ =>
    let (fraction, rest) ← scanFraction rest
    let (exponent, rest) ← scanExponent rest
    some (⟨negative, whole, fraction, exponent⟩, rest)

/-- Reads a literal. -/
def scanLiteral : List Char → Option (Json.Literal × List Char)
  | '-' :: rest => scanUnsigned true rest
  | cs => scanUnsigned false cs

/-- The document of a literal. -/
def ofLiteral (l : Json.Literal) : Written :=
  match l.number? with
  | some n => .number n
  | none => .invalid

/-- The document of a string that was read. -/
def ofText? : Option String → Written
  | some s => .string s
  | none => .invalid

/-- The document of fields that were read. A key that is no text spoils the whole object. -/
def ofFields? : Option (List (String × Written)) → Written
  | some fields => .object fields
  | none => .invalid

/-! ## §3. Documents -/

mutual

/-- Reads one document, blanks before it included. -/
def scanValue : Nat → List Char → Option (Written × List Char)
  | 0, _ => none
  | fuel + 1, cs =>
    match skipBlanks cs with
    | 'n' :: 'u' :: 'l' :: 'l' :: rest => some (.null, rest)
    | 't' :: 'r' :: 'u' :: 'e' :: rest => some (.bool true, rest)
    | 'f' :: 'a' :: 'l' :: 's' :: 'e' :: rest => some (.bool false, rest)
    | '"' :: rest => (scanText {} rest).map fun (text, rest) => (ofText? text, rest)
    | '[' :: rest =>
      match skipBlanks rest with
      | ']' :: rest => some (.array [], rest)
      | _ => (scanItems fuel rest).map fun (items, rest) => (.array items, rest)
    | '\x7b' :: rest =>
      match skipBlanks rest with
      | '\x7d' :: rest => some (.object [], rest)
      | _ => (scanFields fuel rest).map fun (fields, rest) => (ofFields? fields, rest)
    | cs => (scanLiteral cs).map fun (literal, rest) => (ofLiteral literal, rest)

/-- Reads the items of an array up to and including its closing bracket. -/
def scanItems : Nat → List Char → Option (List Written × List Char)
  | 0, _ => none
  | fuel + 1, cs =>
    match scanValue fuel cs with
    | none => none
    | some (item, rest) =>
      match skipBlanks rest with
      | ',' :: rest => (scanItems fuel rest).map fun (items, rest) => (item :: items, rest)
      | ']' :: rest => some ([item], rest)
      | _ => none

/-- Reads the fields of an object up to and including its closing brace. -/
def scanFields : Nat → List Char → Option (Option (List (String × Written)) × List Char)
  | 0, _ => none
  | fuel + 1, cs =>
    match skipBlanks cs with
    | '"' :: rest =>
      match scanText {} rest with
      | none => none
      | some (key, rest) =>
        match skipBlanks rest with
        | ':' :: rest =>
          match scanValue fuel rest with
          | none => none
          | some (value, rest) =>
            let field := key.map fun key => (key, value)
            match skipBlanks rest with
            | ',' :: rest =>
              (scanFields fuel rest).map fun (fields, rest) =>
                (field.bind fun field => fields.map (field :: ·), rest)
            | '\x7d' :: rest => some (field.map fun field => [field], rest)
            | _ => none
        | _ => none
    | _ => none

end

/-- Reads one document at the start of a text and returns what follows it. -/
def scan (text : String) : Option (Written × List Char) :=
  let cs := text.toList
  scanValue (2 * cs.length + 2) cs

/-- Reads a text that is one document with nothing but blanks around it. -/
def read (text : String) : Option Written :=
  match scan text with
  | some (document, rest) => if skipBlanks rest = [] then some document else none
  | none => none

end FuzzBundle.Written
