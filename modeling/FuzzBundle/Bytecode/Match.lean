/-
  FuzzBundle.Bytecode.Match — finding code among candidates.

  Codes are compared by the bits in which they differ. A candidate counts only if its length is
  near that of the code looked for, and of those that count the nearest one wins, the earliest of
  several.
-/
import FuzzBundle.Bytecode.Code
import FuzzBundle.Json.Basic

namespace FuzzBundle.Bytecode

/-! ## §1. Distance -/

/-- How many bits of a byte are set. -/
def bitCount (b : UInt8) : Nat := (List.range 8).countP (b.toNat.testBit ·)

/-- In how many bits two codes differ, when the shorter one is filled up with zero bytes. -/
def distance : List UInt8 → List UInt8 → Nat
  | [], bs => (bs.map bitCount).sum
  | as, [] => (as.map bitCount).sum
  | a :: as, b :: bs => bitCount (a ^^^ b) + distance as bs

/-- Whether a length differs from another one by no more than a fraction of that. -/
def withinLengthGate (target candidate : Nat) (tolerance : Binary64) : Bool :=
  let delta := (target - candidate) + (candidate - target)
  (Binary64.ofNat delta).le (tolerance.mul (.ofNat target))

/-! ## §2. Candidates -/

/-- Code that was seen at an address. -/
structure Candidate where
  address : String
  code : List UInt8
  deriving DecidableEq

/-- The code that an entry of a trace left behind. -/
def candidateOf? (entry : Json) : Option Candidate := do
  let result ← entry.field? "result"
  let address ← (result.field? "address").bind Json.string?
  let code ← (result.field? "code").bind Json.string?
  match decode code with
  | .ok code => some ⟨address, code⟩
  | .error _ => none

/-- The codes that a trace left behind. -/
def candidatesOf (trace : Json) : List Candidate := (trace.items?.getD []).filterMap candidateOf?

/-- Puts a candidate with its distance in the place of the best one so far, if it is nearer. -/
def better (target : List UInt8) (best? : Option (Candidate × Nat)) (c : Candidate) :
    Option (Candidate × Nat) :=
  let d := distance target c.code
  match best? with
  | none => some (c, d)
  | some (best, least) => if d < least then some (c, d) else some (best, least)

/-- The nearest candidate of suitable length, and its distance. -/
def bestMatch (target : List UInt8) (candidates : List Candidate) (tolerance : Binary64) :
    Option (Candidate × Nat) :=
  (candidates.filter fun c => withinLengthGate target.length c.code.length tolerance).foldl
    (better target) none

end FuzzBundle.Bytecode
