/-
  FuzzBundle.Proofs.SpelledDocuments — what is read as a document is one.

  The reader looks at what stands behind white space, and goes by the first character: a word, a
  quote, a bracket, a brace, or a number. The symbols that it used up are spelled by the rule of the
  grammar for that case. The rules for documents, items and fields refer to each other, and so do
  the lemmas here, by recursion on the fuel.

  Main statement: `spells_of_scanValue`.
-/
import FuzzBundle.Proofs.DocumentText

namespace FuzzBundle.Grammar

open Written

/-! ## §1. Behind white space -/

/-- What is read before white space is a string. -/
theorem spells_of_key {symbols : List Symbol} {text : Option String} {rest : List Char}
    (h : scanText {} (readingOf symbols) = some (text, rest)) :
    ∃ key after, .character '"' :: symbols = key ++ after ∧ SpellsString key text
      ∧ rest = readingOf after := by
  obtain ⟨body, parts, after, rfl, spelled, read, rfl⟩ := spells_of_scanText h
  refine ⟨.character '"' :: (body ++ [.character '"']), after, ?_, .quoted spelled, read⟩
  simp

/-- A mark behind white space. -/
theorem exists_mark {symbols : List Symbol} {c : Char} {rest : List Char}
    (h : skipBlanks (readingOf symbols) = c :: rest) (other : c ≠ 'x') :
    ∃ gap after, symbols = gap ++ .character c :: after ∧ Blank gap ∧ rest = readingOf after := by
  obtain ⟨gap, after, rfl, blank, read⟩ := exists_blank symbols
  obtain ⟨last, rfl, read'⟩ := exists_character (read ▸ h) other
  exact ⟨gap, last, rfl, blank, read'⟩

/-- A word behind white space. -/
theorem exists_word (used : List Char) {symbols : List Symbol} {rest : List Char}
    (h : skipBlanks (readingOf symbols) = used ++ rest) (other : 'x' ∉ used) :
    ∃ gap after, symbols = gap ++ (symbolsOf used ++ after) ∧ Blank gap
      ∧ rest = readingOf after := by
  obtain ⟨gap, after, rfl, blank, read⟩ := exists_blank symbols
  obtain ⟨last, rfl, read'⟩ := exists_symbolsOf used (read ▸ h) other
  exact ⟨gap, last, rfl, blank, read'⟩

/-! ## §2. Documents -/

mutual

/-- **What is read as a document is spelled as one.** -/
theorem spells_of_scanValue (fuel : Nat) {symbols : List Symbol} {w : Written} {rest : List Char}
    (h : scanValue fuel (readingOf symbols) = some (w, rest)) :
    ∃ gap body after, symbols = gap ++ (body ++ after) ∧ Blank gap ∧ Spells body w
      ∧ rest = readingOf after := by
  cases fuel with
  | zero => cases h
  | succ fuel =>
    rw [scanValue] at h
    split at h
    · next read =>
      cases h
      obtain ⟨gap, after, rfl, blank, read'⟩ :=
        exists_word ['n', 'u', 'l', 'l'] read (by decide)
      exact ⟨gap, _, after, rfl, blank, .null, read'⟩
    · next read =>
      cases h
      obtain ⟨gap, after, rfl, blank, read'⟩ :=
        exists_word ['t', 'r', 'u', 'e'] read (by decide)
      exact ⟨gap, _, after, rfl, blank, .true, read'⟩
    · next read =>
      cases h
      obtain ⟨gap, after, rfl, blank, read'⟩ :=
        exists_word ['f', 'a', 'l', 's', 'e'] read (by decide)
      exact ⟨gap, _, after, rfl, blank, .false, read'⟩
    · next read =>
      -- a quote: a string
      obtain ⟨gap, after, rfl, blank, rfl⟩ := exists_mark read (by decide)
      obtain ⟨⟨text, rest⟩, scanned, result⟩ := Option.map_eq_some_iff.1 h
      cases result
      obtain ⟨key, last, eq, spelled, read'⟩ := spells_of_key scanned
      exact ⟨gap, key, last, by rw [eq], blank, .string spelled, read'⟩
    · next read =>
      -- a bracket: an array, which may be closed at once
      obtain ⟨gap, after, rfl, blank, rfl⟩ := exists_mark read (by decide)
      split at h
      · next close =>
        cases h
        obtain ⟨inner, last, rfl, blank', read'⟩ := exists_mark close (by decide)
        exact ⟨gap, _, last, by simp, blank, .emptyArray blank', read'⟩
      · obtain ⟨⟨items, rest⟩, scanned, result⟩ := Option.map_eq_some_iff.1 h
        cases result
        obtain ⟨body, last, rfl, spelled, read'⟩ := spells_of_scanItems fuel scanned
        exact ⟨gap, _, last, by simp, blank, .array spelled, read'⟩
    · next read =>
      -- a brace: an object, which may be closed at once
      obtain ⟨gap, after, rfl, blank, rfl⟩ := exists_mark read (by decide)
      split at h
      · next close =>
        cases h
        obtain ⟨inner, last, rfl, blank', read'⟩ := exists_mark close (by decide)
        exact ⟨gap, _, last, by simp, blank, .emptyObject blank', read'⟩
      · obtain ⟨⟨fields, rest⟩, scanned, result⟩ := Option.map_eq_some_iff.1 h
        cases result
        obtain ⟨body, last, rfl, spelled, read'⟩ := spells_of_scanFields fuel scanned
        exact ⟨gap, _, last, by simp, blank, .object spelled, read'⟩
    · obtain ⟨⟨literal, rest⟩, scanned, result⟩ := Option.map_eq_some_iff.1 h
      cases result
      obtain ⟨used, read, spelled⟩ := spells_of_scanLiteral scanned
      obtain ⟨gap, after, rfl, blank, read'⟩ := exists_word used read spelled.not_mem
      exact ⟨gap, _, after, rfl, blank, .number spelled, read'⟩

/-- What is read as items is spelled as items. -/
theorem spells_of_scanItems (fuel : Nat) {symbols : List Symbol} {items : List Written}
    {rest : List Char} (h : scanItems fuel (readingOf symbols) = some (items, rest)) :
    ∃ body after, symbols = body ++ after ∧ SpellsItems body items ∧ rest = readingOf after := by
  cases fuel with
  | zero => cases h
  | succ fuel =>
    rw [scanItems] at h
    split at h
    · cases h
    · next w rest' scanned =>
      obtain ⟨gap, body, after, rfl, blank, spelled, rfl⟩ := spells_of_scanValue fuel scanned
      split at h
      · next comma =>
        obtain ⟨gap', last, rfl, blank', rfl⟩ := exists_mark comma (by decide)
        obtain ⟨⟨more, rest⟩, scanned', result⟩ := Option.map_eq_some_iff.1 h
        cases result
        obtain ⟨body', end', rfl, spelled', read⟩ := spells_of_scanItems fuel scanned'
        exact ⟨_, end', by simp, .more (.padded blank spelled blank') spelled', read⟩
      · next close =>
        cases h
        obtain ⟨gap', last, rfl, blank', read⟩ := exists_mark close (by decide)
        exact ⟨_, last, by simp, .last (.padded blank spelled blank'), read⟩
      · cases h

/-- What is read as fields is spelled as fields. -/
theorem spells_of_scanFields (fuel : Nat) {symbols : List Symbol}
    {fields : Option (List (String × Written))} {rest : List Char}
    (h : scanFields fuel (readingOf symbols) = some (fields, rest)) :
    ∃ body after, symbols = body ++ after ∧ SpellsFields body fields ∧ rest = readingOf after := by
  cases fuel with
  | zero => cases h
  | succ fuel =>
    rw [scanFields] at h
    split at h
    · next quote =>
      obtain ⟨before, after, rfl, blank, rfl⟩ := exists_mark quote (by decide)
      split at h
      · cases h
      · next name rest' text =>
        obtain ⟨key, after', eq, spelledKey, rfl⟩ := spells_of_key text
        rw [eq]
        split at h
        · next colon =>
          obtain ⟨between, last, rfl, blank', rfl⟩ := exists_mark colon (by decide)
          split at h
          · cases h
          · next w rest'' scanned =>
            obtain ⟨gap, body, after'', rfl, gapBlank, spelled, rfl⟩ :=
              spells_of_scanValue fuel scanned
            simp only at h
            split at h
            · next comma =>
              obtain ⟨gap', last', rfl, blank'', rfl⟩ := exists_mark comma (by decide)
              obtain ⟨⟨more, rest⟩, scanned', result⟩ := Option.map_eq_some_iff.1 h
              cases result
              obtain ⟨body', end', rfl, spelled', read⟩ := spells_of_scanFields fuel scanned'
              have fields := SpellsFields.more blank spelledKey blank'
                (.padded gapBlank spelled blank'') spelled'
              refine ⟨_, end', ?_, by cases name <;> exact fields, read⟩
              simp
            · next close =>
              cases h
              obtain ⟨gap', last', rfl, blank'', read⟩ := exists_mark close (by decide)
              have fields := SpellsFields.last blank spelledKey blank'
                (.padded gapBlank spelled blank'')
              refine ⟨_, last', ?_, by cases name <;> exact fields, read⟩
              simp
            · cases h
        · cases h
    · cases h

end

end FuzzBundle.Grammar
