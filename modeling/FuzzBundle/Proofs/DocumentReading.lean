/-
  FuzzBundle.Proofs.DocumentReading — a document on one line is read back.

  The text that `Written.compact` makes is one document, and reading it gives `Written.readBack` of
  what was written: the same document, with every number as it is read (`read_compact`). Strings
  and keys come back as they were, whatever characters are in them.

  The reader is bounded by the length of its text; the bound is carried along as an inequality
  between lengths, of which every bracket and every comma leaves something over.
-/
import FuzzBundle.Proofs.LiteralReading

namespace FuzzBundle

namespace Written

/-! ## §1. Strings -/

/-- The text read so far when no surrogate was in it. -/
def TextState.plain (reversed : List Char) : TextState := ⟨reversed, none, true⟩

theorem pushUnit_toNat (reversed : List Char) {c : Char} (control : c < ' ') :
    (TextState.plain reversed).pushUnit c.toNat = .plain (c :: reversed) := by
  have small : c.toNat < 32 := control
  rw [TextState.pushUnit, if_neg (by omega), if_neg (by omega), Char.ofNat_toNat]
  rfl

theorem unit?_control {c : Char} (control : c < ' ') :
    unit? '0' '0' (Hex.digit (c.toNat / 16)) (Hex.digit (c.toNat % 16)) = some c.toNat := by
  have small : c.toNat < 32 := control
  have zero : Hex.value? '0' = some 0 := rfl
  have parts : ((0 * 16 + 0) * 16 + c.toNat / 16) * 16 + c.toNat % 16 = c.toNat := by omega
  rw [unit?, zero, Hex.value?_digit (by omega), Hex.value?_digit (by omega)]
  exact congrArg some parts

theorem scanText_quote (state : TextState) (rest : List Char) :
    scanText state ('"' :: rest) = some (state.text?, rest) := by
  rw [scanText.eq_def]
  rfl

theorem scanText_unit (state : TextState) {a b c d : Char} {n : Nat} (rest : List Char)
    (h : unit? a b c d = some n) :
    scanText state ('\\' :: 'u' :: a :: b :: c :: d :: rest)
      = scanText (state.pushUnit n) rest := by
  rw [scanText, if_neg (by decide), if_pos rfl, h]

theorem scanText_push (state : TextState) {c : Char} (rest : List Char) (quote : c ≠ '"')
    (backslash : c ≠ '\\') (control : ¬ c < ' ') :
    scanText state (c :: rest) = scanText (state.push c) rest := by
  rw [scanText.eq_def]
  simp only [if_neg quote, if_neg backslash, if_neg control]

/-- An escaped character is read as that character. -/
theorem scanText_escapeChar (reversed : List Char) (c : Char) (rest : List Char) :
    scanText (.plain reversed) (escapeChar c ++ rest) = scanText (.plain (c :: reversed)) rest := by
  unfold escapeChar
  split
  · next h => subst h; rfl
  split
  · next h => subst h; rfl
  split
  · next h => subst h; rfl
  split
  · next h => subst h; rfl
  split
  · next h => subst h; rfl
  split
  · next h => subst h; rfl
  split
  · next h => subst h; rfl
  split
  · next control =>
    show scanText _ ('\\' :: 'u' :: '0' :: '0' :: _ :: _ :: rest) = _
    rw [scanText_unit _ rest (unit?_control control), pushUnit_toNat reversed control]
  · next quote backslash _ _ _ _ _ control =>
    exact scanText_push (.plain reversed) rest quote backslash control

theorem scanText_escaped (cs reversed rest : List Char) :
    scanText (.plain reversed) (cs.flatMap escapeChar ++ '"' :: rest)
      = some (some (String.ofList (reversed.reverse ++ cs)), rest) := by
  induction cs generalizing reversed with
  | nil =>
    rw [List.append_nil, List.flatMap_nil, List.nil_append, scanText_quote]
    rfl
  | cons c cs ih =>
    rw [List.flatMap_cons, List.append_assoc, scanText_escapeChar, ih, List.reverse_cons,
      List.append_assoc]
    rfl

/-- A quoted string, and what comes after it. -/
theorem quoted_append (s : String) (rest : List Char) :
    quoted s ++ rest = '"' :: (s.toList.flatMap escapeChar ++ '"' :: rest) := by
  rw [quoted, List.append_assoc]
  rfl

/-- A quoted string is read as that string. -/
theorem scanText_quoted (s : String) (rest : List Char) :
    scanText {} (s.toList.flatMap escapeChar ++ '"' :: rest) = some (some s, rest) := by
  have read := scanText_escaped s.toList [] rest
  rw [List.reverse_nil, List.nil_append, String.ofList_toList] at read
  exact read

/-! ## §2. Documents read back -/

mutual

/-- The document that is read where a document was written. -/
def readBack : Written → Written
  | .null => .null
  | .bool b => .bool b
  | .number n => n.readBack
  | .string s => .string s
  | .array items => .array (readBackItems items)
  | .object fields => .object (readBackFields fields)
  | .invalid => .null

/-- The items of an array, read back. -/
def readBackItems : List Written → List Written
  | [] => []
  | item :: rest => readBack item :: readBackItems rest

/-- The fields of an object, read back. -/
def readBackFields : List (String × Written) → List (String × Written)
  | [] => []
  | (key, value) :: rest => (key, readBack value) :: readBackFields rest

end

theorem readBackFields_eq_map (fields : List (String × Written)) :
    readBackFields fields = fields.map fun field => (field.1, readBack field.2) := by
  induction fields with
  | nil => rfl
  | cons field rest ih => rw [readBackFields, List.map_cons, ih]

/-! ## §3. How documents begin -/

/-- The first character of a number: a digit or a minus sign. -/
def startsNumber (c : Char) : Bool := c.isDigit || c == '-'

theorem SpellsLiteral.starts {cs : List Char} {l : Json.Literal} (h : SpellsLiteral cs l) :
    ∃ c more, cs = c :: more ∧ startsNumber c = true := by
  cases h with
  | negative _ => exact ⟨'-', _, rfl, rfl⟩
  | plain spelled =>
    obtain ⟨c, more, rfl, digit⟩ := spelled.exists_cons
    refine ⟨c, more, rfl, ?_⟩
    rw [startsNumber, digit]
    rfl

theorem Spelling.text_starts {v : Spelling} (h : v.WellFormed) :
    ∃ c cs, v.text = c :: cs ∧ startsNumber c = true :=
  (text_spells h).starts

theorem ne_of_startsNumber {c d : Char} (h : startsNumber c = true)
    (other : startsNumber d = false) : c ≠ d := by
  intro same
  rw [same, other] at h
  cases h

theorem isBlank_of_startsNumber {c : Char} (h : startsNumber c = true) : isBlank c = false := by
  have apart : ∀ d, startsNumber d = false → (c == d) = false :=
    fun d other => beq_eq_false_iff_ne.2 (ne_of_startsNumber h other)
  rw [isBlank, apart ' ' rfl, apart '\t' rfl, apart '\n' rfl, apart '\r' rfl]
  rfl

/-- Every document on one line begins with a character that is no blank and closes no array. -/
theorem compactChars_starts (w : Written) :
    ∃ c cs, compactChars w = c :: cs ∧ isBlank c = false ∧ c ≠ ']' := by
  cases w with
  | null => exact ⟨_, _, rfl, rfl, by decide⟩
  | bool b => cases b <;> exact ⟨_, _, rfl, rfl, by decide⟩
  | number n =>
    cases none : n.blank with
    | true => exact ⟨_, _, n.text_of_blank none, rfl, by decide⟩
    | false =>
      obtain ⟨v, wellFormed, text, -⟩ := n.text_spelled none
      obtain ⟨c, cs, starts, number⟩ := Spelling.text_starts wellFormed
      refine ⟨c, cs, ?_, isBlank_of_startsNumber number, ne_of_startsNumber number rfl⟩
      rw [compactChars, ← text, starts]
  | string s => exact ⟨_, _, rfl, rfl, by decide⟩
  | array items => exact ⟨_, _, rfl, rfl, by decide⟩
  | object fields => exact ⟨_, _, rfl, rfl, by decide⟩
  | invalid => exact ⟨_, _, rfl, rfl, by decide⟩

theorem skipBlanks_cons {c : Char} (h : isBlank c = false) (cs : List Char) :
    skipBlanks (c :: cs) = c :: cs := by
  rw [skipBlanks, List.dropWhile_cons, h]
  rfl

/-! ## §4. One step of the reader -/

section Steps

variable {c : Char} {cs rest : List Char} (fuel : Nat)

theorem scanValue_number (h : startsNumber c = true) :
    scanValue (fuel + 1) (c :: cs)
      = (scanLiteral (c :: cs)).map fun read => (ofLiteral read.1, read.2) := by
  rw [scanValue, skipBlanks_cons (isBlank_of_startsNumber h)]
  split
  · next e => cases e; cases h
  · next e => cases e; cases h
  · next e => cases e; cases h
  · next e => cases e; cases h
  · next e => cases e; cases h
  · next e => cases e; cases h
  · rfl

/-- A number is read where it was written, if no number goes on after it. -/
theorem scanValue_numberText (n : Json.Number) (ends : EndsNumber rest) :
    scanValue (fuel + 1) (n.text ++ rest) = some (n.readBack, rest) := by
  cases none : n.blank with
  | true =>
    rw [n.text_of_blank none, n.readBack_of_blank none]
    rfl
  | false =>
    obtain ⟨v, wellFormed, text, -⟩ := n.text_spelled none
    obtain ⟨c, cs, starts, number⟩ := Spelling.text_starts wellFormed
    have literal := Spelling.scanLiteral_text wellFormed ends
    rw [starts, List.cons_append] at literal
    rw [n.readBack_of_spelled wellFormed text, ← text, starts, List.cons_append,
      scanValue_number fuel number, literal]
    rfl

theorem scanValue_text (s : String) :
    scanValue (fuel + 1) (quoted s ++ rest) = some (.string s, rest) := by
  rw [quoted_append, scanValue, skipBlanks_cons rfl]
  simp only [scanText_quoted]
  rfl

theorem scanValue_array (starts : skipBlanks cs = c :: rest) (other : c ≠ ']') :
    scanValue (fuel + 1) ('[' :: cs)
      = (scanItems fuel cs).map fun read => (.array read.1, read.2) := by
  rw [scanValue, skipBlanks_cons rfl]
  simp only [starts]
  split
  · next e => cases e; exact absurd rfl other
  · rfl

theorem scanValue_object (starts : skipBlanks cs = '"' :: rest) :
    scanValue (fuel + 1) ('\x7b' :: cs)
      = (scanFields fuel cs).map fun read => (ofFields? read.1, read.2) := by
  rw [scanValue, skipBlanks_cons rfl]
  simp only [starts]
  rfl

variable {left : List Char} {w : Written}

theorem scanItems_comma (h : scanValue fuel cs = some (w, left))
    (mark : skipBlanks left = ',' :: rest) :
    scanItems (fuel + 1) cs = (scanItems fuel rest).map fun read => (w :: read.1, read.2) := by
  rw [scanItems, h]
  simp only [mark]

theorem scanItems_close (h : scanValue fuel cs = some (w, left))
    (mark : skipBlanks left = ']' :: rest) : scanItems (fuel + 1) cs = some ([w], rest) := by
  rw [scanItems, h]
  simp only [mark]

variable {key afterKey value : List Char} {name : Option String}

theorem scanFields_comma (quote : skipBlanks cs = '"' :: key)
    (text : scanText {} key = some (name, afterKey)) (colon : skipBlanks afterKey = ':' :: value)
    (h : scanValue fuel value = some (w, left)) (mark : skipBlanks left = ',' :: rest) :
    scanFields (fuel + 1) cs
      = (scanFields fuel rest).map fun read =>
          (name.bind fun name => read.1.map ((name, w) :: ·), read.2) := by
  rw [scanFields, quote]
  simp only [text, colon, h, mark]
  cases name <;> rfl

theorem scanFields_close (quote : skipBlanks cs = '"' :: key)
    (text : scanText {} key = some (name, afterKey)) (colon : skipBlanks afterKey = ':' :: value)
    (h : scanValue fuel value = some (w, left)) (mark : skipBlanks left = '\x7d' :: rest) :
    scanFields (fuel + 1) cs = some (name.map fun name => [(name, w)], rest) := by
  rw [scanFields, quote]
  simp only [text, colon, h, mark]
  cases name <;> rfl

end Steps

/-! ## §5. Whole documents -/

theorem compactItems_cons_cons (item next : Written) (rest : List Written) :
    compactItems (item :: next :: rest)
      = compactChars item ++ ',' :: compactItems (next :: rest) := by
  rw [compactItems]
  exact nofun

theorem compactFields_cons_cons (key : String) (value : Written) (next : String × Written)
    (rest : List (String × Written)) :
    compactFields ((key, value) :: next :: rest)
      = quoted key ++ ':' :: compactChars value ++ ',' :: compactFields (next :: rest) := by
  rw [compactFields]
  exact nofun

/-- A list of items begins as its first item does. -/
theorem compactItems_starts (item : Written) (rest : List Written) :
    ∃ c cs, compactItems (item :: rest) = c :: cs ∧ isBlank c = false ∧ c ≠ ']' := by
  obtain ⟨c, cs, starts, blank, other⟩ := compactChars_starts item
  cases rest with
  | nil => exact ⟨c, cs, starts, blank, other⟩
  | cons next rest =>
    rw [compactItems_cons_cons, starts]
    exact ⟨c, _, rfl, blank, other⟩

theorem compactFields_starts (field : String × Written) (rest : List (String × Written)) :
    ∃ cs, compactFields (field :: rest) = '"' :: cs := by
  cases rest with
  | nil => exact ⟨_, rfl⟩
  | cons next rest => rw [compactFields_cons_cons]; exact ⟨_, rfl⟩

theorem compactChars_length_pos (w : Written) : 0 < (compactChars w).length := by
  obtain ⟨c, cs, starts, -⟩ := compactChars_starts w
  rw [starts]
  exact Nat.succ_pos _

theorem length_array (items : List Written) :
    (compactChars (.array items)).length = (compactItems items).length + 2 := by
  rw [compactChars, List.length_append, List.length_cons]
  rfl

theorem length_object (fields : List (String × Written)) :
    (compactChars (.object fields)).length = (compactFields fields).length + 2 := by
  rw [compactChars, List.length_append, List.length_cons]
  rfl

mutual

/-- A document is read where it was written, if no number goes on after it. -/
theorem scanValue_compact (fuel : Nat) (w : Written)
    (enough : 2 * (compactChars w).length ≤ fuel) {rest : List Char} (ends : EndsNumber rest) :
    scanValue fuel (compactChars w ++ rest) = some (readBack w, rest) := by
  cases fuel with
  | zero =>
    have := compactChars_length_pos w
    omega
  | succ fuel =>
    match w with
    | .null => rfl
    | .bool true => rfl
    | .bool false => rfl
    | .invalid => rfl
    | .string s => exact scanValue_text fuel s
    | .number n => exact scanValue_numberText fuel n ends
    | .array [] => rfl
    | .array (item :: items) =>
      rw [length_array] at enough
      -- the brackets leave the fuel that the items take
      have inner := scanItems_compact fuel item items (by omega) rest
      obtain ⟨c, cs, starts, blank, other⟩ := compactItems_starts item items
      rw [compactChars, List.append_assoc, List.cons_append, readBack]
      rw [starts] at inner ⊢
      rw [List.cons_append, List.cons_append, scanValue_array fuel (skipBlanks_cons blank _) other]
      exact congrArg _ inner
    | .object [] => rfl
    | .object ((key, value) :: fields) =>
      rw [length_object] at enough
      have inner := scanFields_compact fuel key value fields (by omega) rest
      obtain ⟨cs, starts⟩ := compactFields_starts (key, value) fields
      rw [compactChars, List.append_assoc, List.cons_append, readBack]
      rw [starts] at inner ⊢
      rw [List.cons_append, List.cons_append, scanValue_object fuel (skipBlanks_cons rfl _)]
      exact congrArg _ inner
termination_by fuel

/-- Items are read up to the bracket that closes them. A comma ends every number. -/
theorem scanItems_compact (fuel : Nat) (item : Written) (more : List Written)
    (enough : 2 * (compactItems (item :: more)).length < fuel) (rest : List Char) :
    scanItems fuel (compactItems (item :: more) ++ ']' :: rest)
      = some (readBackItems (item :: more), rest) := by
  cases fuel with
  | zero => omega
  | succ fuel =>
    match more with
    | [] =>
      have single : 2 * (compactChars item).length < fuel + 1 := enough
      exact scanItems_close fuel (scanValue_compact fuel item (by omega) rfl)
        (skipBlanks_cons rfl _)
    | next :: more =>
      rw [compactItems_cons_cons, List.length_append, List.length_cons] at enough
      have tail := scanItems_compact fuel next more (by omega) rest
      have first := scanValue_compact fuel item (by omega)
        (show EndsNumber (',' :: (compactItems (next :: more) ++ ']' :: rest)) from rfl)
      rw [compactItems_cons_cons, List.append_assoc, List.cons_append,
        scanItems_comma fuel first (skipBlanks_cons rfl _), tail]
      rfl
termination_by fuel

/-- Fields are read up to the brace that closes them. -/
theorem scanFields_compact (fuel : Nat) (key : String) (value : Written)
    (more : List (String × Written))
    (enough : 2 * (compactFields ((key, value) :: more)).length < fuel) (rest : List Char) :
    scanFields fuel (compactFields ((key, value) :: more) ++ '\x7d' :: rest)
      = some (some (readBackFields ((key, value) :: more)), rest) := by
  cases fuel with
  | zero => omega
  | succ fuel =>
    match more with
    | [] =>
      have single : 2 * (quoted key ++ ':' :: compactChars value).length < fuel + 1 := enough
      rw [List.length_append, List.length_cons] at single
      show scanFields _ ((quoted key ++ ':' :: compactChars value) ++ '\x7d' :: rest) = _
      rw [List.append_assoc, List.cons_append, quoted_append]
      exact scanFields_close fuel (skipBlanks_cons rfl _) (scanText_quoted key _)
        (skipBlanks_cons rfl _) (scanValue_compact fuel value (by omega) rfl)
        (skipBlanks_cons rfl _)
    | (nextKey, nextValue) :: more =>
      rw [compactFields_cons_cons, List.length_append, List.length_append, List.length_cons,
        List.length_cons] at enough
      have tail := scanFields_compact fuel nextKey nextValue more (by omega) rest
      have first := scanValue_compact fuel value (by omega)
        (show EndsNumber (',' :: (compactFields ((nextKey, nextValue) :: more) ++ '\x7d' :: rest))
          from rfl)
      rw [compactFields_cons_cons, List.append_assoc, List.append_assoc, List.cons_append,
        List.cons_append, quoted_append, scanFields_comma fuel (skipBlanks_cons rfl _)
          (scanText_quoted key _) (skipBlanks_cons rfl _) first (skipBlanks_cons rfl _), tail]
      rfl
termination_by fuel

end

/-- Reading the one line of a document gives the document read back. -/
theorem read_compact (w : Written) : read w.compact = some w.readBack := by
  have scanned : scanValue (2 * (compactChars w).length + 2) (compactChars w ++ []) = _ :=
    scanValue_compact _ w (by omega) rfl
  rw [List.append_nil] at scanned
  rw [read, scan, compact, String.toList_ofList]
  simp only [scanned]
  rfl

end Written

/-! ## §6. Values read back -/

namespace Json

mutual

/-- Every number inside is read back as a number, or null stands for it. A value without this is
refused when it is read back: some number of it is beyond all doubles for the reader. -/
def Legible : Json → Prop
  | .number n => n.readBack ≠ .invalid
  | .array items => LegibleItems items
  | .object fields => LegibleFields fields
  | .null | .bool _ | .string _ => True

/-- All values of a list are legible. -/
def LegibleItems : List Json → Prop
  | [] => True
  | item :: rest => Legible item ∧ LegibleItems rest

/-- The values of all fields are legible. -/
def LegibleFields : List (String × Json) → Prop
  | [] => True
  | (_, value) :: rest => Legible value ∧ LegibleFields rest

end

mutual

theorem isSome_value?_readBack (value : Json) :
    value.written.readBack.value?.isSome = true ↔ value.Legible := by
  cases value with
  | null => exact iff_of_true rfl trivial
  | bool b => exact iff_of_true rfl trivial
  | string s => exact iff_of_true rfl trivial
  | number n =>
    rw [written, Written.readBack, Legible]
    cases none : n.blank with
    | true =>
      rw [n.readBack_of_blank none]
      exact iff_of_true rfl nofun
    | false =>
      rcases n.readBack_of_not_blank none with ⟨x, read⟩ | read
      · rw [read]; exact iff_of_true rfl nofun
      · rw [read]; exact iff_of_false nofun fun other => other rfl
  | array items =>
    rw [written, Written.readBack, Written.value?, Legible, Option.isSome_map]
    exact isSome_values?_readBack items
  | object fields =>
    rw [written, Written.readBack, Written.value?, Legible, Option.isSome_map]
    exact isSome_fieldValues?_readBack fields

theorem isSome_values?_readBack (items : List Json) :
    (Written.values? (Written.readBackItems (writtenItems items))).isSome = true
      ↔ LegibleItems items := by
  cases items with
  | nil => exact iff_of_true rfl trivial
  | cons item rest =>
    rw [writtenItems, Written.readBackItems, LegibleItems, ← isSome_value?_readBack item,
      ← isSome_values?_readBack rest, Written.values?]
    cases item.written.readBack.value? <;>
      cases Written.values? (Written.readBackItems (writtenItems rest)) <;> simp

theorem isSome_fieldValues?_readBack (fields : List (String × Json)) :
    (Written.fieldValues? (Written.readBackFields (writtenFields fields))).isSome = true
      ↔ LegibleFields fields := by
  cases fields with
  | nil => exact iff_of_true rfl trivial
  | cons field rest =>
    obtain ⟨key, value⟩ := field
    rw [writtenFields, Written.readBackFields, LegibleFields, ← isSome_value?_readBack value,
      ← isSome_fieldValues?_readBack rest, Written.fieldValues?]
    cases value.written.readBack.value? <;>
      cases Written.fieldValues? (Written.readBackFields (writtenFields rest)) <;> simp

end

end Json

end FuzzBundle
