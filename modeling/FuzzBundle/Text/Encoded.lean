/-
  FuzzBundle.Text.Encoded — texts as bytes.

  A character is encoded in up to four bytes. Bytes that encode no text can still be shown: a sign
  stands where no character begins, and there is only one sign for all the bytes of a character
  that was begun and not ended.
-/

namespace FuzzBundle

/-- The bytes of a text. -/
def encoded (text : String) : List UInt8 := text.toList.flatMap String.utf8EncodeChar

/-- The character that some bytes begin with, if they begin with one. It takes up to four bytes, and
no fewer bytes of a character are one. -/
def leadingCharacter? (bytes : List UInt8) : Option Char :=
  [1, 2, 3, 4].findSome? fun n =>
    (String.fromUTF8? ⟨(bytes.take n).toArray⟩).bind (·.toList.head?)

/-- How many bytes follow the first byte of a character, and between which two the next one is. -/
def followers? (first : UInt8) : Option (Nat × UInt8 × UInt8) :=
  if 0xc2 ≤ first ∧ first ≤ 0xdf then some (1, 0x80, 0xbf)
  else if first = 0xe0 then some (2, 0xa0, 0xbf)
  else if first = 0xed then some (2, 0x80, 0x9f)
  else if 0xe1 ≤ first ∧ first ≤ 0xef then some (2, 0x80, 0xbf)
  else if first = 0xf0 then some (3, 0x90, 0xbf)
  else if 0xf1 ≤ first ∧ first ≤ 0xf3 then some (3, 0x80, 0xbf)
  else if first = 0xf4 then some (3, 0x80, 0x8f)
  else none

/-- How many bytes are shown by one sign, where no character begins: those of a character that is
not ended, or a single one. -/
def begunLength : List UInt8 → Nat
  | [] => 0
  | first :: rest =>
    match followers? first, rest with
    | some (more, low, high), second :: rest =>
      if low ≤ second ∧ second ≤ high then
        2 + ((rest.take (more - 1)).takeWhile fun byte => 0x80 ≤ byte && byte ≤ 0xbf).length
      else 1
    | _, _ => 1

/-- The characters that are shown for some bytes, of which the first `taken` are shown already. -/
def shownFrom (taken : Nat) : List UInt8 → List Char
  | [] => []
  | byte :: rest =>
    match taken with
    | more + 1 => shownFrom more rest
    | 0 =>
      match leadingCharacter? (byte :: rest) with
      | some c => c :: shownFrom (c.utf8Size - 1) rest
      | none => '\ufffd' :: shownFrom (begunLength (byte :: rest) - 1) rest

end FuzzBundle
