/-
  FuzzBundle.Proofs.DocumentGrammar — the grammar of documents.

  `Spells` says which symbols are a document, without any reading: what strings, numbers, lists and
  objects are spelled with, and white space wherever it may stand. A string may hold stray bytes; it
  is no text then. `Document` is a file that is one document with nothing but white space around it.

  A reader has characters before it and not symbols. What it took can be told in symbols all the
  same, for none of the characters that it looks for begins the reading of a stray byte.

  Main statements: `exists_symbolsOf`, `exists_blank`.
-/
import FuzzBundle.Proofs.DocumentReading
import FuzzBundle.Proofs.FileBytes

namespace FuzzBundle

namespace Grammar

open Written

/-! ## §1. The grammar -/

/-- Some characters as symbols. -/
def symbolsOf (cs : List Char) : List Symbol := cs.map .character

/-- White space, or nothing. -/
def Blank (symbols : List Symbol) : Prop := ∃ cs, symbols = symbolsOf cs ∧ cs.all isBlank = true

/-- What a string is made of: characters, code units, and bytes that are no character. -/
inductive TextPart where
  | character (c : Char)
  | unit (n : Nat)
  | stray

/-- One part of a string: a character that needs no escape, an escape of a character or of a code
unit, or a stray byte. -/
inductive SpellsPart : List Symbol → TextPart → Prop where
  | plain {c : Char} : c ≠ '"' → c ≠ '\\' → ¬ c < ' ' → SpellsPart [.character c] (.character c)
  | escape {e c : Char} : escape? e = some c → SpellsPart (symbolsOf ['\\', e]) (.character c)
  | unit {a b c d : Char} {n : Nat} : unit? a b c d = some n →
      SpellsPart (symbolsOf ['\\', 'u', a, b, c, d]) (.unit n)
  | stray (byte : UInt8) : SpellsPart [.stray byte] .stray

/-- The parts of a string, one after the other. -/
inductive SpellsParts : List Symbol → List TextPart → Prop where
  | nil : SpellsParts [] []
  | cons {symbols more : List Symbol} {part : TextPart} {parts : List TextPart} :
      SpellsPart symbols part → SpellsParts more parts →
      SpellsParts (symbols ++ more) (part :: parts)

/-- Adds a part to a text. -/
def TextPart.add (state : TextState) : TextPart → TextState
  | .character c => state.push c
  | .unit n => state.pushUnit n
  | .stray => { state with paired := false }

/-- The text of some parts, if it is one. -/
def textOf? (parts : List TextPart) : Option String := (parts.foldl TextPart.add {}).text?

/-- A string from its opening quote to its closing one. -/
inductive SpellsString : List Symbol → Option String → Prop where
  | quoted {body : List Symbol} {parts : List TextPart} : SpellsParts body parts →
      SpellsString (.character '"' :: (body ++ [.character '"'])) (textOf? parts)

mutual

/-- A document. -/
inductive Spells : List Symbol → Written → Prop where
  | null : Spells (symbolsOf ['n', 'u', 'l', 'l']) .null
  | true : Spells (symbolsOf ['t', 'r', 'u', 'e']) (.bool true)
  | false : Spells (symbolsOf ['f', 'a', 'l', 's', 'e']) (.bool false)
  | number {cs : List Char} {l : Json.Literal} : SpellsLiteral cs l →
      Spells (symbolsOf cs) (ofLiteral l)
  | string {symbols : List Symbol} {text : Option String} : SpellsString symbols text →
      Spells symbols (ofText? text)
  | emptyArray {gap : List Symbol} : Blank gap →
      Spells (.character '[' :: (gap ++ [.character ']'])) (.array [])
  | array {symbols : List Symbol} {items : List Written} : SpellsItems symbols items →
      Spells (.character '[' :: symbols) (.array items)
  | emptyObject {gap : List Symbol} : Blank gap →
      Spells (.character '\x7b' :: (gap ++ [.character '\x7d'])) (.object [])
  | object {symbols : List Symbol} {fields : Option (List (String × Written))} :
      SpellsFields symbols fields → Spells (.character '\x7b' :: symbols) (ofFields? fields)

/-- A document with white space around it. -/
inductive SpellsPadded : List Symbol → Written → Prop where
  | padded {before body after : List Symbol} {w : Written} :
      Blank before → Spells body w → Blank after → SpellsPadded (before ++ (body ++ after)) w

/-- The items of an array up to its closing bracket. -/
inductive SpellsItems : List Symbol → List Written → Prop where
  | last {item : List Symbol} {w : Written} : SpellsPadded item w →
      SpellsItems (item ++ [.character ']']) [w]
  | more {item symbols : List Symbol} {w : Written} {items : List Written} :
      SpellsPadded item w → SpellsItems symbols items →
      SpellsItems (item ++ .character ',' :: symbols) (w :: items)

/-- The fields of an object up to its closing brace. -/
inductive SpellsFields : List Symbol → Option (List (String × Written)) → Prop where
  | last {before key between value : List Symbol} {name : Option String} {w : Written} :
      Blank before → SpellsString key name → Blank between → SpellsPadded value w →
      SpellsFields
        (before ++ (key ++ (between ++ .character ':' :: (value ++ [.character '\x7d']))))
        (name.map fun name => [(name, w)])
  | more {before key between value symbols : List Symbol} {name : Option String} {w : Written}
      {fields : Option (List (String × Written))} :
      Blank before → SpellsString key name → Blank between → SpellsPadded value w →
      SpellsFields symbols fields →
      SpellsFields
        (before ++ (key ++ (between ++ .character ':' :: (value ++ .character ',' :: symbols))))
        (name.bind fun name => fields.map ((name, w) :: ·))

end

end Grammar

/-- Bytes that are one document with nothing but white space around it. -/
def Document (bytes : List UInt8) (w : Written) : Prop :=
  ∃ symbols, Holds bytes symbols ∧ Grammar.SpellsPadded symbols w

namespace Grammar

open Written

/-! ## §2. Characters off symbols -/

theorem readingOf_append (front back : List Symbol) :
    readingOf (front ++ back) = readingOf front ++ readingOf back := List.flatMap_append

theorem readingOf_character (c : Char) (symbols : List Symbol) :
    readingOf (.character c :: symbols) = c :: readingOf symbols := rfl

theorem readingOf_symbolsOf (cs : List Char) : readingOf (symbolsOf cs) = cs := by
  rw [readingOf, symbolsOf, List.flatMap_map]
  exact List.flatMap_singleton' cs

/-- A character that does not begin the reading of a stray byte is a symbol. -/
theorem exists_character {symbols : List Symbol} {c : Char} {rest : List Char}
    (h : readingOf symbols = c :: rest) (other : c ≠ 'x') :
    ∃ after, symbols = .character c :: after ∧ rest = readingOf after := by
  cases symbols with
  | nil => cases h
  | cons symbol after =>
    cases symbol with
    | character d =>
      rw [readingOf_character] at h
      cases h
      exact ⟨after, rfl, rfl⟩
    | stray byte => exact absurd (List.cons.inj h).1.symm other

/-- So are all characters among which that one is not. -/
theorem exists_symbolsOf (used : List Char) {symbols : List Symbol} {rest : List Char}
    (h : readingOf symbols = used ++ rest) (other : 'x' ∉ used) :
    ∃ after, symbols = symbolsOf used ++ after ∧ rest = readingOf after := by
  induction used generalizing symbols with
  | nil => exact ⟨symbols, rfl, h.symm⟩
  | cons c used ih =>
    rw [List.mem_cons, not_or] at other
    obtain ⟨after, rfl, read⟩ := exists_character h (Ne.symm other.1)
    obtain ⟨last, rfl, ended⟩ := ih read.symm other.2
    exact ⟨last, rfl, ended⟩

/-! ## §3. White space -/

theorem Blank.nil : Blank [] := ⟨[], rfl, rfl⟩

theorem skipBlanks_append {cs : List Char} (blank : cs.all isBlank = true) (rest : List Char) :
    skipBlanks (cs ++ rest) = skipBlanks rest := by
  rw [skipBlanks, List.dropWhile_append_of_pos (List.all_eq_true.1 blank)]
  rfl

theorem Blank.skip {gap : List Symbol} (blank : Blank gap) (rest : List Char) :
    skipBlanks (readingOf gap ++ rest) = skipBlanks rest := by
  obtain ⟨cs, rfl, blank⟩ := blank
  rw [readingOf_symbolsOf, skipBlanks_append blank]

/-- The symbols that are skipped are white space. -/
theorem exists_blank (symbols : List Symbol) :
    ∃ gap after, symbols = gap ++ after ∧ Blank gap
      ∧ skipBlanks (readingOf symbols) = readingOf after := by
  have cut := List.takeWhile_append_dropWhile (p := isBlank) (l := readingOf symbols)
  have blank : ((readingOf symbols).takeWhile isBlank).all isBlank = true :=
    List.all_takeWhile
  obtain ⟨after, eq, read⟩ := exists_symbolsOf _ cut.symm fun mem =>
    absurd (List.all_eq_true.1 blank 'x' mem) (by decide)
  exact ⟨_, after, eq, ⟨_, rfl, blank⟩, read⟩

theorem blank_of_skipBlanks {symbols : List Symbol} (h : skipBlanks (readingOf symbols) = []) :
    Blank symbols := by
  obtain ⟨gap, after, rfl, blank, read⟩ := exists_blank symbols
  rw [h] at read
  cases after with
  | nil => rwa [List.append_nil]
  | cons symbol after => cases symbol <;> cases read

end Grammar

end FuzzBundle
