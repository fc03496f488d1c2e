/-
  FuzzBundle.Bytecode.Code — code in hexadecimal digits.

  Code that is not linked yet holds placeholders for addresses of libraries: two underscores, 36
  characters on one line, and two underscores. `normalize` fills each of them with zeros,
  character by character, so that all else stays at its place. `decode` reads the digits.
-/
import FuzzBundle.Text.Blank
import FuzzBundle.Text.Hex

namespace FuzzBundle.Bytecode

/-- Whether a link placeholder begins here. -/
def startsPlaceholder : List Char → Bool
  | '_' :: '_' :: rest =>
    let name := rest.take 36
    name.length == 36 && name.all (· ≠ '\n') && (rest.drop 36).take 2 == ['_', '_']
  | _ => false

/-- Replaces placeholders by zeros, from left to right. `inside` is how many characters of a
placeholder are still to come. -/
def fill : Nat → List Char → List Char
  | _, [] => []
  | inside + 1, _ :: rest => '0' :: fill inside rest
  | 0, c :: rest => if startsPlaceholder (c :: rest) then '0' :: fill 39 rest else c :: fill 0 rest

/-- Code without `0x` in front and with placeholders filled. -/
def normalize (code : String) : String :=
  String.ofList (fill 0 (Text.dropStart "0x" code).toList)

/-- Why code has no bytes. -/
inductive CodeError where
  | oddLength
  | invalidCharacter
  deriving DecidableEq, Repr

/-- The bytes of pairs of digits. -/
def bytesOf? : List Char → Option (List UInt8)
  | [] => some []
  | [_] => none
  | a :: b :: rest =>
    match Hex.value? a, Hex.value? b, bytesOf? rest with
    | some high, some low, some bytes => some (UInt8.ofNat (16 * high + low) :: bytes)
    | _, _, _ => none

/-- The bytes of a text of digits. Its length, in bytes of the encoded text, is looked at first. -/
def bytesOfText (text : String) : Except CodeError (List UInt8) :=
  if text.utf8ByteSize % 2 = 1 then .error .oddLength
  else
    match bytesOf? text.toList with
    | some bytes => .ok bytes
    | none => .error .invalidCharacter

/-- The bytes of code. -/
def decode (code : String) : Except CodeError (List UInt8) := bytesOfText (normalize code)

end FuzzBundle.Bytecode
