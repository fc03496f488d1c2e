/-
  FuzzBundle.Proofs.DocumentText — strings of a document are read where they are spelled.

  A string is read part by part, and every part takes the state of the text to the next one as the
  grammar says. For a stray byte the reader meets other characters, which spoil the text as the byte
  does: from then on the states differ, but no text will come of either (`SameText`).

  Main statements: `scanText_parts`, `spells_of_scanText`.
-/
import FuzzBundle.Proofs.DocumentGrammar

namespace FuzzBundle.Grammar

open Written

/-! ## §1. States of a text -/

/-- The states of a text in which nothing is left to be decided: they are the same, or no text will
come of either. -/
def SameText (s s' : TextState) : Prop := s = s' ∨ s.paired = false ∧ s'.paired = false

theorem SameText.text? {s s' : TextState} (h : SameText s s') : s.text? = s'.text? := by
  rcases h with rfl | ⟨h, h'⟩
  · rfl
  · rw [TextState.text?, TextState.text?, h, h']
    rfl

theorem paired_push {s : TextState} (h : s.paired = false) (c : Char) :
    (s.push c).paired = false := by
  rw [TextState.push, h]
  rfl

theorem paired_pushUnit {s : TextState} (h : s.paired = false) (n : Nat) :
    (s.pushUnit n).paired = false := by
  unfold TextState.pushUnit
  split
  · show (s.paired && _) = false
    rw [h]
    rfl
  · split
    · split
      · exact h
      · rfl
    · exact paired_push h _

theorem SameText.add {s s' : TextState} (h : SameText s s') (part : TextPart) :
    SameText (part.add s) (part.add s') := by
  rcases h with rfl | ⟨h, h'⟩
  · exact .inl rfl
  · cases part with
    | character c => exact .inr ⟨paired_push h c, paired_push h' c⟩
    | unit n => exact .inr ⟨paired_pushUnit h n, paired_pushUnit h' n⟩
    | stray => exact .inr ⟨rfl, rfl⟩

theorem SameText.foldl {s s' : TextState} (h : SameText s s') (parts : List TextPart) :
    SameText (parts.foldl TextPart.add s) (parts.foldl TextPart.add s') := by
  induction parts generalizing s s' with
  | nil => exact h
  | cons part parts ih => exact ih (h.add part)

/-- What stands for a stray byte spoils a text as the byte does. -/
theorem sameText_stray (s : TextState) :
    SameText ((s.push 'x').pushUnit 0xdc00) (TextPart.stray.add s) := .inr ⟨rfl, rfl⟩

/-! ## §2. What is spelled is read -/

theorem scanText_stray (state : TextState) (rest : List Char) :
    scanText state (noCharacter ++ rest) = scanText ((state.push 'x').pushUnit 0xdc00) rest := by
  show scanText state ('x' :: '\\' :: 'u' :: 'd' :: 'c' :: '0' :: '0' :: rest) = _
  rw [scanText_push state _ (by decide) (by decide) (by decide),
    scanText_unit (state.push 'x') rest (n := 0xdc00) rfl]

theorem scanText_escape (state : TextState) {e c : Char} (rest : List Char)
    (h : escape? e = some c) :
    scanText state ('\\' :: e :: rest) = scanText (state.push c) rest := by
  have other : e ≠ 'u' := fun same => by
    rw [same] at h
    cases h
  rw [scanText.eq_def]
  simp only [if_neg (show '\\' ≠ '"' by decide), if_true]
  split
  · next eq => exact absurd (List.cons.inj eq).1 other
  · next eq =>
    obtain ⟨rfl, rfl⟩ := List.cons.inj eq
    rw [h]
  · next eq => cases eq

/-- A part of a string is read for what it is. -/
theorem scanText_part {symbols : List Symbol} {part : TextPart} (h : SpellsPart symbols part)
    (state : TextState) (rest : List Char) :
    ∃ after, scanText state (readingOf symbols ++ rest) = scanText after rest
      ∧ SameText after (part.add state) := by
  cases h with
  | plain quote backslash control =>
    exact ⟨_, scanText_push state rest quote backslash control, .inl rfl⟩
  | escape h => exact ⟨_, scanText_escape state rest h, .inl rfl⟩
  | unit h => exact ⟨_, scanText_unit state rest h, .inl rfl⟩
  | stray byte => exact ⟨_, scanText_stray state rest, sameText_stray state⟩

/-- **A string is read where it is spelled.** -/
theorem scanText_parts {symbols : List Symbol} {parts : List TextPart}
    (h : SpellsParts symbols parts) {state state' : TextState} (same : SameText state state')
    (rest : List Char) :
    scanText state (readingOf (symbols ++ [.character '"']) ++ rest)
      = some ((parts.foldl TextPart.add state').text?, rest) := by
  induction h generalizing state state' with
  | nil =>
    show scanText state ('"' :: rest) = _
    rw [scanText_quote, same.text?]
    rfl
  | @cons symbols more part parts here _ ih =>
    obtain ⟨after, read, same'⟩ :=
      scanText_part here state (readingOf (more ++ [.character '"']) ++ rest)
    rw [List.append_assoc, readingOf_append, List.append_assoc, read, List.foldl_cons]
    refine ih ?_
    rcases same' with rfl | ⟨spoilt, spoilt'⟩
    · exact same.add part
    · rcases same.add part with eq | ⟨spoilt'', done⟩
      · exact .inr ⟨spoilt, eq ▸ spoilt'⟩
      · exact .inr ⟨spoilt, done⟩

/-! ## §3. What is read is spelled -/

/-- The digits of a code unit are none that begin a stray byte. -/
theorem not_mem_of_unit? {a b c d : Char} {n : Nat} (h : unit? a b c d = some n) :
    'x' ∉ [a, b, c, d] := by
  have none : Hex.value? 'x' = .none := rfl
  intro mem
  unfold unit? at h
  simp only [List.mem_cons, List.not_mem_nil, or_false] at mem
  rcases mem with rfl | rfl | rfl | rfl <;> simp [none] at h

/-- One part of a string stands before the rest of some symbols, and takes one state to the next. -/
def TakesPart (state : TextState) (symbols : List Symbol) (next : TextState)
    (after : List Symbol) : Prop :=
  ∃ front part, symbols = front ++ after ∧ SpellsPart front part ∧ SameText next (part.add state)

theorem SpellsPart.ne_nil {symbols : List Symbol} {part : TextPart} (h : SpellsPart symbols part) :
    symbols ≠ [] := by
  cases h <;> exact List.cons_ne_nil _ _

/-- What is read behind a backslash is an escape or a code unit. -/
theorem takesPart_of_scanText_backslash {symbols : List Symbol} {state : TextState}
    {found : Option String × List Char}
    (h : scanText state ('\\' :: readingOf symbols) = some found) :
    ∃ next after, TakesPart state (.character '\\' :: symbols) next after
      ∧ scanText next (readingOf after) = some found := by
  rw [scanText.eq_def] at h
  simp only [if_neg (show '\\' ≠ '"' by decide), if_true] at h
  split at h
  · next a b c d more read =>
    split at h
    · next n unit =>
      have digits : 'x' ∉ ['u', a, b, c, d] := by
        rw [List.mem_cons, not_or]
        exact ⟨by decide, not_mem_of_unit? unit⟩
      obtain ⟨after, rfl, read'⟩ := exists_symbolsOf ['u', a, b, c, d] read digits
      exact ⟨_, after, ⟨_, _, rfl, .unit unit, .inl rfl⟩, read' ▸ h⟩
    · cases h
  · next e more _ read =>
    split at h
    · next c escape =>
      have other : e ≠ 'x' := fun same => by
        rw [same] at escape
        cases escape
      obtain ⟨after, rfl, read'⟩ := exists_character read other
      exact ⟨_, after, ⟨_, _, rfl, .escape escape, .inl rfl⟩, read' ▸ h⟩
    · cases h
  · cases h

/-- A string that is read ends at once, or a part of it is read first. -/
theorem takesPart_of_scanText {symbols : List Symbol} {state : TextState} {text : Option String}
    {rest : List Char} (h : scanText state (readingOf symbols) = some (text, rest)) :
    (∃ after, symbols = .character '"' :: after ∧ rest = readingOf after ∧ text = state.text?)
      ∨ ∃ next after, TakesPart state symbols next after
        ∧ scanText next (readingOf after) = some (text, rest) := by
  cases symbols with
  | nil =>
    rw [show readingOf [] = [] from rfl, scanText] at h
    cases h
  | cons symbol after =>
    cases symbol with
    | stray byte =>
      rw [show readingOf (.stray byte :: after) = noCharacter ++ readingOf after from rfl,
        scanText_stray] at h
      exact .inr ⟨_, after, ⟨[_], _, rfl, .stray byte, sameText_stray state⟩, h⟩
    | character c =>
      rw [readingOf_character] at h
      by_cases quote : c = '"'
      · subst quote
        rw [scanText_quote] at h
        cases h
        exact .inl ⟨after, rfl, rfl, rfl⟩
      · by_cases backslash : c = '\\'
        · subst backslash
          exact .inr (takesPart_of_scanText_backslash h)
        · by_cases control : c < ' '
          · rw [scanText.eq_def] at h
            simp only [if_neg quote, if_neg backslash, if_pos control] at h
            cases h
          · rw [scanText_push state _ quote backslash control] at h
            exact .inr ⟨_, after, ⟨[_], _, rfl, .plain quote backslash control, .inl rfl⟩, h⟩

/-- **What is read as a string is spelled as one.** -/
theorem spells_of_scanText {symbols : List Symbol} {state : TextState} {text : Option String}
    {rest : List Char} (h : scanText state (readingOf symbols) = some (text, rest)) :
    ∃ body parts after, symbols = body ++ .character '"' :: after ∧ SpellsParts body parts
      ∧ rest = readingOf after ∧ text = (parts.foldl TextPart.add state).text? := by
  induction length : symbols.length using Nat.strongRecOn generalizing symbols state with
  | _ n ih =>
    rcases takesPart_of_scanText h with
      ⟨after, rfl, rfl, rfl⟩ | ⟨next, after, ⟨front, part, rfl, spelled, same⟩, read⟩
    · exact ⟨[], [], after, rfl, .nil, rfl, rfl⟩
    · have shorter : after.length < n := by
        have := List.length_pos_of_ne_nil spelled.ne_nil
        rw [← length, List.length_append]
        omega
      obtain ⟨body, parts, last, rfl, spelled', read', text'⟩ := ih _ shorter read rfl
      refine ⟨front ++ body, part :: parts, last, ?_, .cons spelled spelled', read', ?_⟩
      · rw [List.append_assoc]
      · rw [text', List.foldl_cons, (same.foldl parts).text?]

end FuzzBundle.Grammar
