/-
  FuzzBundle.Proofs.ScannedDocuments — a file is read as a whole if it is one document.

  A document is read where it is spelled (`scanValue_spelled`), by recursion on the fuel as well:
  there is enough of it, because every rule of the grammar uses up symbols. With what is read being
  spelled, the reader takes exactly a document off the symbols before it. White space behind it is
  left for whoever asks whether the file ends there.

  Main statements: `scanValue_spelled`, `Document.scan_append`, `scan_whole_iff`.
-/
import FuzzBundle.Proofs.SpelledDocuments

namespace FuzzBundle

namespace Grammar

open Written

/-! ## §1. How documents begin -/

theorem continuesNumber_of_isBlank {c : Char} (h : isBlank c = true) :
    continuesNumber c = false := by
  simp only [isBlank, Bool.or_eq_true, beq_iff_eq] at h
  rcases h with ((rfl | rfl) | rfl) | rfl <;> rfl

/-- White space ends a number. -/
theorem Blank.endsNumber {gap : List Symbol} (blank : Blank gap) {rest : List Char}
    (ends : EndsNumber rest) : EndsNumber (readingOf gap ++ rest) := by
  obtain ⟨cs, rfl, all⟩ := blank
  rw [readingOf_symbolsOf]
  cases cs with
  | nil => exact ends
  | cons c cs =>
    rw [List.all_cons, Bool.and_eq_true] at all
    exact continuesNumber_of_isBlank all.1

/-- A mark is found behind white space. -/
theorem Blank.skip_mark {gap : List Symbol} (blank : Blank gap) {c : Char}
    (mark : isBlank c = false) (symbols : List Symbol) (rest : List Char) :
    skipBlanks (readingOf (gap ++ .character c :: symbols) ++ rest)
      = c :: (readingOf symbols ++ rest) := by
  rw [readingOf_append, List.append_assoc, blank.skip, readingOf_character, List.cons_append,
    skipBlanks_cons mark]

theorem scanValue_congr (fuel : Nat) {cs cs' : List Char} (h : skipBlanks cs = skipBlanks cs') :
    scanValue fuel cs = scanValue fuel cs' := by
  cases fuel with
  | zero => rfl
  | succ fuel => rw [scanValue, scanValue, h]

/-- Every document begins with a character that is no blank and closes no array. -/
theorem starts_of_spells {body : List Symbol} {w : Written} (h : Spells body w) :
    ∃ c more, body = .character c :: more ∧ isBlank c = false ∧ c ≠ ']' := by
  cases h with
  | null | true | false => exact ⟨_, _, rfl, rfl, by decide⟩
  | number spelled =>
    obtain ⟨c, more, rfl, number⟩ := spelled.starts
    exact ⟨c, _, rfl, isBlank_of_startsNumber number, ne_of_startsNumber number rfl⟩
  | string spelled =>
    cases spelled with
    | quoted _ => exact ⟨_, _, rfl, rfl, by decide⟩
  | emptyArray | array | emptyObject | object => exact ⟨_, _, rfl, rfl, by decide⟩

theorem SpellsPadded.starts {symbols : List Symbol} {w : Written} (h : SpellsPadded symbols w)
    (rest : List Char) :
    ∃ c cs, skipBlanks (readingOf symbols ++ rest) = c :: cs ∧ c ≠ ']' := by
  cases h with
  | padded blank spelled _ =>
    obtain ⟨c, more, rfl, mark, other⟩ := starts_of_spells spelled
    exact ⟨c, _, blank.skip_mark mark _ rest, other⟩

/-- A list of items begins as its first item does. -/
theorem SpellsItems.starts {symbols : List Symbol} {items : List Written}
    (h : SpellsItems symbols items) (rest : List Char) :
    ∃ c cs, skipBlanks (readingOf symbols ++ rest) = c :: cs ∧ c ≠ ']' := by
  cases h with
  | last spelled | more spelled _ =>
    rw [readingOf_append, List.append_assoc]
    exact spelled.starts _

/-- A string is read from its opening quote on. -/
theorem SpellsString.scan {key : List Symbol} {text : Option String} (h : SpellsString key text) :
    ∃ body, key = .character '"' :: body
      ∧ ∀ rest, scanText {} (readingOf body ++ rest) = some (text, rest) := by
  cases h with
  | quoted parts => exact ⟨_, rfl, scanText_parts parts (.inl rfl)⟩

theorem SpellsFields.starts {symbols : List Symbol} {fields : Option (List (String × Written))}
    (h : SpellsFields symbols fields) (rest : List Char) :
    ∃ cs, skipBlanks (readingOf symbols ++ rest) = '"' :: cs := by
  cases h with
  | last blank spelled _ _ | more blank spelled _ _ _ =>
    obtain ⟨body, rfl, -⟩ := spelled.scan
    exact ⟨_, blank.skip_mark rfl _ rest⟩

/-- The key of a field is read, and the colon behind it. -/
theorem scan_key {before key between : List Symbol} {name : Option String} (blank : Blank before)
    (spelled : SpellsString key name) (blank' : Blank between) (value : List Symbol)
    (rest : List Char) :
    ∃ quoted afterKey,
      skipBlanks (readingOf (before ++ (key ++ (between ++ .character ':' :: value))) ++ rest)
        = '"' :: quoted
      ∧ scanText {} quoted = some (name, afterKey)
      ∧ skipBlanks afterKey = ':' :: (readingOf value ++ rest) := by
  obtain ⟨body, rfl, text⟩ := spelled.scan
  have key := text (readingOf (between ++ .character ':' :: value) ++ rest)
  rw [← List.append_assoc, ← readingOf_append] at key
  exact ⟨_, _, blank.skip_mark rfl _ rest, key, blank'.skip_mark rfl value rest⟩

/-! ## §2. Documents -/

mutual

/-- **A document is read where it is spelled**, if no number goes on after it. -/
theorem scanValue_spelled (fuel : Nat) {body : List Symbol} {w : Written} (h : Spells body w)
    (enough : 2 * body.length ≤ fuel) {rest : List Char}
    (ends : (∃ l, w = ofLiteral l) → EndsNumber rest) :
    scanValue fuel (readingOf body ++ rest) = some (w, rest) := by
  cases fuel with
  | zero =>
    obtain ⟨c, more, rfl, -⟩ := starts_of_spells h
    simp at enough
  | succ fuel =>
    cases h with
    | null => rfl
    | true => rfl
    | false => rfl
    | number spelled =>
      have literal := scanLiteral_spelled spelled (ends ⟨_, rfl⟩)
      obtain ⟨c, more, rfl, number⟩ := spelled.starts
      rw [readingOf_symbolsOf]
      rw [List.cons_append] at literal ⊢
      rw [scanValue_number fuel number, literal]
      rfl
    | string spelled =>
      obtain ⟨inner, rfl, scanned⟩ := spelled.scan
      rw [readingOf_character, List.cons_append, scanValue, skipBlanks_cons rfl]
      simp only [scanned]
      rfl
    | emptyArray blank =>
      rw [readingOf_character, List.cons_append, scanValue, skipBlanks_cons rfl]
      simp only [blank.skip_mark (show isBlank ']' = false from rfl)]
      rfl
    | array spelled =>
      obtain ⟨c, cs, starts, other⟩ := spelled.starts rest
      rw [List.length_cons] at enough
      rw [readingOf_character, List.cons_append, scanValue_array fuel starts other,
        scanItems_spelled fuel spelled (by omega) rest]
      rfl
    | emptyObject blank =>
      rw [readingOf_character, List.cons_append, scanValue, skipBlanks_cons rfl]
      simp only [blank.skip_mark (show isBlank '\x7d' = false from rfl)]
      rfl
    | object spelled =>
      obtain ⟨cs, starts⟩ := spelled.starts rest
      rw [List.length_cons] at enough
      rw [readingOf_character, List.cons_append, scanValue_object fuel starts,
        scanFields_spelled fuel spelled (by omega) rest]
      rfl
termination_by (fuel, 0)

/-- A document is read up to the white space after it. -/
theorem scanValue_padded (fuel : Nat) {symbols : List Symbol} {w : Written}
    (h : SpellsPadded symbols w) (enough : 2 * symbols.length ≤ fuel) {rest : List Char}
    (ends : EndsNumber rest) :
    ∃ left, scanValue fuel (readingOf symbols ++ rest) = some (w, left)
      ∧ skipBlanks left = skipBlanks rest := by
  cases h with
  | @padded before body after w blank spelled blank' =>
    rw [List.length_append, List.length_append] at enough
    refine ⟨readingOf after ++ rest, ?_, blank'.skip rest⟩
    rw [readingOf_append, readingOf_append, List.append_assoc, List.append_assoc,
      scanValue_congr fuel (blank.skip _)]
    exact scanValue_spelled fuel spelled (by omega) fun _ => blank'.endsNumber ends
termination_by (fuel, 1)

/-- Items are read up to the bracket that closes them. -/
theorem scanItems_spelled (fuel : Nat) {symbols : List Symbol} {items : List Written}
    (h : SpellsItems symbols items) (enough : 2 * symbols.length ≤ fuel) (rest : List Char) :
    scanItems fuel (readingOf symbols ++ rest) = some (items, rest) := by
  cases h with
  | last spelled =>
    rw [List.length_append, List.length_cons] at enough
    obtain ⟨fuel, rfl⟩ : ∃ n, fuel = n + 1 := ⟨fuel - 1, by omega⟩
    rw [readingOf_append, List.append_assoc]
    obtain ⟨left, read, skipped⟩ := scanValue_padded fuel spelled (by omega)
      (show EndsNumber (readingOf [.character ']'] ++ rest) from rfl)
    exact scanItems_close fuel read (skipped.trans (skipBlanks_cons rfl _))
  | @more item symbols w items spelled more =>
    rw [List.length_append, List.length_cons] at enough
    obtain ⟨fuel, rfl⟩ : ∃ n, fuel = n + 1 := ⟨fuel - 1, by omega⟩
    rw [readingOf_append, List.append_assoc]
    obtain ⟨left, read, skipped⟩ := scanValue_padded fuel spelled (by omega)
      (show EndsNumber (readingOf (.character ',' :: symbols) ++ rest) from rfl)
    have comma : skipBlanks left = ',' :: (readingOf symbols ++ rest) :=
      skipped.trans (skipBlanks_cons rfl _)
    rw [scanItems_comma fuel read comma, scanItems_spelled fuel more (by omega) rest]
    rfl
termination_by (fuel, 0)

/-- Fields are read up to the brace that closes them. -/
theorem scanFields_spelled (fuel : Nat) {symbols : List Symbol}
    {fields : Option (List (String × Written))} (h : SpellsFields symbols fields)
    (enough : 2 * symbols.length ≤ fuel) (rest : List Char) :
    scanFields fuel (readingOf symbols ++ rest) = some (fields, rest) := by
  cases h with
  | @last before key between value name w blank spelledKey blank' spelled =>
    simp only [List.length_append, List.length_cons] at enough
    obtain ⟨fuel, rfl⟩ : ∃ n, fuel = n + 1 := ⟨fuel - 1, by omega⟩
    obtain ⟨quoted, afterKey, quote, text, colon⟩ :=
      scan_key blank spelledKey blank' (value ++ [.character '\x7d']) rest
    obtain ⟨left, read, skipped⟩ := scanValue_padded fuel spelled (by omega)
      (show EndsNumber (readingOf [.character '\x7d'] ++ rest) from rfl)
    rw [← List.append_assoc, ← readingOf_append] at read
    exact scanFields_close fuel quote text colon read (skipped.trans (skipBlanks_cons rfl _))
  | @more before key between value symbols name w fields blank spelledKey blank' spelled more =>
    simp only [List.length_append, List.length_cons] at enough
    obtain ⟨fuel, rfl⟩ : ∃ n, fuel = n + 1 := ⟨fuel - 1, by omega⟩
    obtain ⟨quoted, afterKey, quote, text, colon⟩ :=
      scan_key blank spelledKey blank' (value ++ .character ',' :: symbols) rest
    obtain ⟨left, read, skipped⟩ := scanValue_padded fuel spelled (by omega)
      (show EndsNumber (readingOf (.character ',' :: symbols) ++ rest) from rfl)
    rw [← List.append_assoc, ← readingOf_append] at read
    have comma : skipBlanks left = ',' :: (readingOf symbols ++ rest) :=
      skipped.trans (skipBlanks_cons rfl _)
    rw [scanFields_comma fuel quote text colon read comma,
      scanFields_spelled fuel more (by omega) rest]
    rfl
termination_by (fuel, 0)

end

/-! ## §3. Files -/

/-- Items end with the bracket that closes them. -/
theorem SpellsItems.ends {symbols : List Symbol} {items : List Written} :
    SpellsItems symbols items → ∃ front, symbols = front ++ [.character ']']
  | .last _ => ⟨_, rfl⟩
  | .more _ rest => by
    obtain ⟨front, rfl⟩ := SpellsItems.ends rest
    exact ⟨_, (List.append_assoc _ (_ :: front) _).symm⟩

/-- Fields end with the brace that closes them. -/
theorem SpellsFields.ends {symbols : List Symbol} {fields : Option (List (String × Written))} :
    SpellsFields symbols fields → ∃ front, symbols = front ++ [.character '\x7d']
  | @SpellsFields.last before key between value _ _ _ _ _ _ =>
    ⟨before ++ (key ++ (between ++ .character ':' :: value)), by simp⟩
  | @SpellsFields.more before key between value _ _ _ _ _ _ _ _ rest => by
    obtain ⟨front, rfl⟩ := SpellsFields.ends rest
    exact ⟨before ++ (key ++ (between ++ .character ':' :: (value ++ .character ',' :: front))),
      by simp⟩

theorem symbolsOf_ends {cs : List Char} (h : cs ≠ []) :
    ∃ front c, symbolsOf cs = front ++ [.character c] :=
  ⟨symbolsOf cs.dropLast, cs.getLast h, by
    rw [symbolsOf, symbolsOf, ← List.map_singleton, ← List.map_append,
      List.dropLast_concat_getLast]⟩

/-- A document ends with a character. -/
theorem ends_of_spells {body : List Symbol} {w : Written} (h : Spells body w) :
    ∃ front c, body = front ++ [.character c] := by
  cases h with
  | null | true | false => exact symbolsOf_ends (List.cons_ne_nil _ _)
  | number spelled =>
    obtain ⟨c, more, rfl, -⟩ := spelled.starts
    exact symbolsOf_ends (List.cons_ne_nil _ _)
  | string spelled =>
    cases spelled with
    | @quoted body _ _ => exact ⟨.character '"' :: body, '"', rfl⟩
  | @emptyArray gap _ => exact ⟨.character '[' :: gap, ']', rfl⟩
  | array spelled =>
    obtain ⟨front, rfl⟩ := spelled.ends
    exact ⟨.character '[' :: front, ']', rfl⟩
  | @emptyObject gap _ => exact ⟨.character '\x7b' :: gap, '\x7d', rfl⟩
  | object spelled =>
    obtain ⟨front, rfl⟩ := spelled.ends
    exact ⟨.character '\x7b' :: front, '\x7d', rfl⟩

/-- So it does with the white space around it. -/
theorem SpellsPadded.ends {symbols : List Symbol} {w : Written} (h : SpellsPadded symbols w) :
    ∃ front c, symbols = front ++ [.character c] := by
  cases h with
  | @padded before body after w blank spelled blank' =>
    obtain ⟨cs, rfl, -⟩ := blank'
    by_cases none : cs = []
    · subst none
      obtain ⟨front, c, rfl⟩ := ends_of_spells spelled
      exact ⟨before ++ front, c, by simp [symbolsOf]⟩
    · obtain ⟨front, c, eq⟩ := symbolsOf_ends none
      exact ⟨before ++ (body ++ front), c, by rw [eq]; simp⟩

/-- No symbol is read as nothing. -/
theorem length_le_readingOf (symbols : List Symbol) :
    symbols.length ≤ (readingOf symbols).length := by
  induction symbols with
  | nil => exact Nat.le_refl 0
  | cons symbol symbols ih =>
    cases symbol with
    | character c => exact Nat.succ_le_succ ih
    | stray byte =>
      have more : (readingOf (.stray byte :: symbols)).length = 7 + (readingOf symbols).length :=
        List.length_append
      rw [more, List.length_cons]
      omega

end Grammar

open Grammar Written

section Files

variable {bytes : List UInt8} {symbols : List Symbol} {w : Written} {rest : List Char}

theorem scan_ofBytes (holds : Holds bytes symbols) :
    (Content.ofBytes bytes).scan
      = scanValue (2 * (readingOf symbols).length + 2) (readingOf symbols) := by
  rw [Content.scan, Written.scan, documentText_ofBytes holds]

/-- What is read at the beginning of a file is a document there. -/
theorem exists_document_of_scan (h : (Content.ofBytes bytes).scan = some (w, rest)) :
    ∃ front tail after, bytes = front ++ tail ∧ Document front w ∧ Holds tail after
      ∧ rest = readingOf after := by
  obtain ⟨symbols, holds⟩ := exists_holds bytes
  rw [scan_ofBytes holds] at h
  obtain ⟨gap, body, after, rfl, blank, spelled, read⟩ := spells_of_scanValue _ h
  rw [← List.append_assoc] at holds
  obtain ⟨front, tail, rfl, held, held'⟩ := holds.split
  refine ⟨front, tail, after, rfl, ⟨gap ++ body, held, ?_⟩, held', read⟩
  have padded := SpellsPadded.padded blank spelled Blank.nil
  rwa [List.append_nil] at padded

/-- **The document at the beginning of a file is read, whatever follows it**, if no number goes on
there. -/
theorem Document.scan_append (h : Document bytes w) {tail : List UInt8} {after : List Symbol}
    (holds : Holds tail after) (ends : (∃ l, w = ofLiteral l) → EndsNumber (readingOf after)) :
    ∃ gap, Blank gap
      ∧ (Content.ofBytes (bytes ++ tail)).scan = some (w, readingOf gap ++ readingOf after) := by
  obtain ⟨symbols, held, padded⟩ := h
  have whole : Holds (bytes ++ tail) (symbols ++ after) := by
    obtain ⟨front, c, rfl⟩ := padded.ends
    rw [List.append_assoc]
    exact held.append holds
  cases padded with
  | @padded before body gap w blank spelled blank' =>
    have parts : readingOf (before ++ (body ++ gap) ++ after)
        = readingOf before ++ (readingOf body ++ (readingOf gap ++ readingOf after)) := by
      simp only [readingOf_append, List.append_assoc]
    have enough := length_le_readingOf (before ++ (body ++ gap) ++ after)
    simp only [List.length_append] at enough
    refine ⟨gap, blank', ?_⟩
    rw [scan_ofBytes whole]
    generalize (readingOf (before ++ (body ++ gap) ++ after)).length = length at enough
    rw [parts, scanValue_congr _ (blank.skip _)]
    exact scanValue_spelled _ spelled (by omega) fun number => blank'.endsNumber (ends number)

/-- **A file is read as a whole if it is one document.** -/
theorem scan_whole_iff :
    (∃ rest, (Content.ofBytes bytes).scan = some (w, rest) ∧ skipBlanks rest = [])
      ↔ Document bytes w := by
  constructor
  · rintro ⟨rest, h, blank⟩
    obtain ⟨symbols, holds⟩ := exists_holds bytes
    rw [scan_ofBytes holds] at h
    obtain ⟨gap, body, after, rfl, gapBlank, spelled, rfl⟩ := spells_of_scanValue _ h
    exact ⟨_, holds, .padded gapBlank spelled (blank_of_skipBlanks blank)⟩
  · intro h
    obtain ⟨gap, blank, read⟩ := h.scan_append Holds.nil fun _ => rfl
    rw [List.append_nil] at read
    exact ⟨_, read, blank.skip _⟩

/-- Bytes are no two documents. -/
theorem Document.unique {w' : Written} (h : Document bytes w) (h' : Document bytes w') :
    w = w' := by
  obtain ⟨rest, read, -⟩ := scan_whole_iff.2 h
  obtain ⟨rest', read', -⟩ := scan_whole_iff.2 h'
  exact (Prod.mk.inj (Option.some.inj (read.symm.trans read'))).1

end Files

end FuzzBundle
