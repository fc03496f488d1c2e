/-
  FuzzBundle.Version — versions of compilers.

  `Version.parse?` reads a semantic version and drops its build metadata, since releases are kept by
  the bare version. `Version.ofLongVersion?` takes the part in front of the commit that a compiler
  names after its version.
-/
import FuzzBundle.Text.Blank
import FuzzBundle.Text.Natural
import FuzzBundle.Text.Pieces

namespace FuzzBundle

/-- A semantic version without build metadata. -/
structure Version where
  major : Nat
  minor : Nat
  patch : Nat
  preRelease : List Char
  deriving DecidableEq, Repr

namespace Version

/-! ## §1. Semantic versions -/

/-- Whether a character may stand in an identifier of a pre-release or of build metadata. -/
def isIdentifierChar (c : Char) : Bool := c.isAlphanum || c == '-'

/-- The number at the start of a text and what follows it. It has no leading zeros and fits into 64
bits. -/
def number? (cs : List Char) : Option (Nat × List Char) :=
  let digits := cs.takeWhile Char.isDigit
  let rest := cs.dropWhile Char.isDigit
  match digits with
  | '0' :: _ :: _ => none
  | _ => (Text.bounded? Text.word64 digits).map fun n => (n, rest)

/-- What follows a point. -/
def afterPoint? : List Char → Option (List Char)
  | '.' :: rest => some rest
  | _ => none

/-- Whether an identifier is in order; in a pre-release, a number has no leading zeros. -/
def isIdentifier (strict : Bool) (cs : List Char) : Bool :=
  !cs.isEmpty && cs.all isIdentifierChar
    && !(strict && cs.all Char.isDigit && cs.length > 1 && cs.head? == some '0')

/-- Whether a text is identifiers with points between them. -/
def areIdentifiers (strict : Bool) (cs : List Char) : Bool :=
  (Text.pieces '.' cs).all (isIdentifier strict)

/-- The pre-release of what follows the three numbers, if that is in order. -/
def suffix? (cs : List Char) : Option (List Char) :=
  let (release, build) := (cs.takeWhile (· ≠ '+'), cs.dropWhile (· ≠ '+'))
  let buildInOrder :=
    match build with
    | [] => true
    | _ :: metadata => areIdentifiers false metadata
  match release with
  | [] => if buildInOrder then some [] else none
  | '-' :: preRelease =>
    if areIdentifiers true preRelease && buildInOrder then some preRelease else none
  | _ => none

/-- The version that a text is. -/
def ofChars? (cs : List Char) : Option Version := do
  let (major, rest) ← number? cs
  let rest ← afterPoint? rest
  let (minor, rest) ← number? rest
  let rest ← afterPoint? rest
  let (patch, rest) ← number? rest
  let preRelease ← suffix? rest
  return ⟨major, minor, patch, preRelease⟩

/-- The version that a text names. White space around it and the letter `v` in front are allowed. -/
def parse? (text : String) : Option Version :=
  ofChars? ((Text.trim text).toList.dropWhile (· == 'v'))

/-- The text of a version. -/
def text (v : Version) : String :=
  let digits (n : Nat) := Nat.toDigits 10 n
  String.ofList (digits v.major ++ '.' :: digits v.minor ++ '.' :: digits v.patch
    ++ (if v.preRelease.isEmpty then [] else '-' :: v.preRelease))

/-! ## §2. Long versions -/

/-- Whether a commit is named right here: `+commit.` and a digit or lower-case letter. -/
def startsCommit (cs : List Char) : Bool :=
  match Text.dropStart? "+commit.".toList cs with
  | some (c :: _) => c.isDigit || ('a' ≤ c && c ≤ 'z')
  | _ => false

/-- The characters before the first named commit, at least one of them and all on one line.
`reversed` are the ones seen so far. -/
def beforeCommit? (reversed : List Char) : List Char → Option (List Char)
  | [] => none
  | c :: rest =>
    if ¬ reversed.isEmpty ∧ startsCommit (c :: rest) then some reversed.reverse
    else if c = '\n' then none
    else beforeCommit? (c :: reversed) rest

/-- The version in front of the commit of a long version. -/
def ofLongVersion? (text : String) : Option String :=
  (beforeCommit? [] (Text.trim text).toList).map String.ofList

end Version

end FuzzBundle
