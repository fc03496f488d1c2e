/-
  FuzzBundle.Json.Bytes — documents in files that need not be text.

  The form of a document is seen without looking at the characters of its strings, so a file may
  hold a document although some of its bytes encode no character: such a byte is allowed in a
  string, and that string has no text. `Content.documentText` gives a text with the same reading.
  Where a byte encodes no character it has a letter and half of a surrogate pair. Between quotes
  that is a string without text, behind a backslash it is no escape, and anywhere else it is no
  part of a document.
-/
import FuzzBundle.Json.Reader
import FuzzBundle.Process

namespace FuzzBundle

/-! ## §1. Characters of bytes -/

/-- What stands for a byte that encodes no character. -/
def noCharacter : List Char := ['x', '\\', 'u', 'd', 'c', '0', '0']

/-- The characters of some bytes, of which the first `taken` belong to a character before them. -/
def charactersFrom (taken : Nat) : List UInt8 → List Char
  | [] => []
  | byte :: rest =>
    match taken with
    | more + 1 => charactersFrom more rest
    | 0 =>
      match leadingCharacter? (byte :: rest) with
      | some c => c :: charactersFrom (c.utf8Size - 1) rest
      | none => noCharacter ++ charactersFrom 0 rest

/-! ## §2. Documents -/

/-- The text that reads as the document in a file. -/
def Content.documentText : Content → String
  | .text s => s
  | .bytes bs => String.ofList (charactersFrom 0 bs)

/-- Reads one document at the beginning of a file and returns what follows it. -/
def Content.scan (content : Content) : Option (Written × List Char) :=
  Written.scan content.documentText

end FuzzBundle
