/-
  FuzzBundle.Proofs.AssemblyTokens — the words, quoted texts and marks of assembly text.

  `tokens?` reads a text from left to right, one character at a time, and keeps what it has read and
  where it stands: between two tokens, in a word, or inside quotes. Blanks and line feeds separate
  words and say nothing else, and neither a line feed nor a carriage return may stand inside quotes.
  That is why indentation changes no token (`LexesAs.indent`): it adds blanks at the beginnings of
  lines, and a line never begins inside quotes.

  `LexesAs` says what a text contributes wherever it stands: its tokens, provided that no character
  of a word follows. The laws in §3 put texts together, so later modules never look at characters.

  Main statements: `LexesAs.append`, `LexesAs.indent`, `LexesAs.braced`, `lexesAs_literal`.
-/
import Mathlib.Data.List.TakeWhile
import FuzzBundle.Proofs.Indentation
import FuzzBundle.Solidity.Layout
import FuzzBundle.Text.Quoted

namespace FuzzBundle.Solidity.Assembly

/-! ## §1. Reading tokens -/

/-- What assembly text is made of. Inside quotes the characters are kept as they are written. -/
inductive Token where
  | word (text : String)
  | quoted (written : List Char)
  | mark (c : Char)
  deriving DecidableEq, Repr

/-- A character of a name, a number or a keyword. -/
def isWordChar (c : Char) : Bool := c.isAlphanum || c == '_' || c == '$' || c == '.'

/-- The characters that are tokens of their own. -/
def marks : List Char := "()\x7b\x7d,:=->".toList

/-- Whether a character is a token of its own. -/
def isMark (c : Char) : Bool := marks.contains c

/-- Where a reader stands. -/
inductive Standing where
  | between
  | inWord (read : List Char)
  | inQuotes (read : List Char)
  | afterBackslash (read : List Char)

/-- The tokens that were read, and what of the next one. -/
structure Reading where
  tokens : List Token
  standing : Standing

namespace Reading

/-- Between two tokens. -/
abbrev after (tokens : List Token) : Reading := ⟨tokens, .between⟩

/-- Reads a character between two tokens. -/
def start (tokens : List Token) (c : Char) : Option Reading :=
  if c = ' ' ∨ c = '\n' then some (after tokens)
  else if c = '"' then some ⟨tokens, .inQuotes []⟩
  else if isWordChar c then some ⟨tokens, .inWord [c]⟩
  else if isMark c then some (after (tokens ++ [.mark c]))
  else none

/-- Reads one more character. -/
def step (r : Reading) (c : Char) : Option Reading :=
  match r.standing with
  | .between => start r.tokens c
  | .inWord read =>
    if isWordChar c then some ⟨r.tokens, .inWord (read ++ [c])⟩
    else start (r.tokens ++ [.word (.ofList read)]) c
  | .inQuotes read =>
    if c = '\n' ∨ c = '\r' then none
    else if c = '\\' then some ⟨r.tokens, .afterBackslash read⟩
    else if c = '"' then some (after (r.tokens ++ [.quoted read]))
    else some ⟨r.tokens, .inQuotes (read ++ [c])⟩
  | .afterBackslash read =>
    if c = '\n' ∨ c = '\r' then none else some ⟨r.tokens, .inQuotes (read ++ ['\\', c])⟩

/-- The tokens at the end of a text, where quotes must be closed. -/
def finish? (r : Reading) : Option (List Token) :=
  match r.standing with
  | .between => some r.tokens
  | .inWord read => some (r.tokens ++ [.word (.ofList read)])
  | .inQuotes _ | .afterBackslash _ => none

/-- The tokens after all that follows was read. -/
def rest? (r : Reading) (cs : List Char) : Option (List Token) :=
  (cs.foldlM step r).bind finish?

@[simp] theorem rest?_nil (r : Reading) : r.rest? [] = r.finish? := rfl

@[simp] theorem rest?_cons (r : Reading) (c : Char) (cs : List Char) :
    r.rest? (c :: cs) = (r.step c).bind (·.rest? cs) := by
  unfold rest?
  rw [List.foldlM_cons]
  show (r.step c >>= _).bind _ = _
  rw [Option.bind_eq_bind, Option.bind_assoc]

end Reading

/-- The tokens of a text, if it is made of tokens. -/
def tokens? (s : String) : Option (List Token) := (Reading.after []).rest? s.toList

example : tokens? "let x := f(\"a\\n\")\n    leave"
    = some [.word "let", .word "x", .mark ':', .mark '=', .word "f", .mark '(',
      .quoted ['a', '\\', 'n'], .mark ')', .word "leave"] := by decide

/-! ## §2. What a text contributes -/

/-- No word goes on here. -/
def Breaks (cs : List Char) : Prop := ∀ c ∈ cs.head?, isWordChar c = false

theorem breaks_nil : Breaks [] := by
  intro c hc
  cases hc

theorem breaks_cons {c : Char} {cs : List Char} (h : isWordChar c = false) : Breaks (c :: cs) := by
  intro d hd
  obtain rfl : c = d := by simpa using hd
  exact h

/-- Before a break, being in a word is the same as having read it. -/
theorem rest?_inWord {tokens : List Token} {read rest : List Char} (h : Breaks rest) :
    Reading.rest? ⟨tokens, .inWord read⟩ rest
      = (Reading.after (tokens ++ [.word (.ofList read)])).rest? rest := by
  cases rest with
  | nil => rfl
  | cons c rest =>
    have other : isWordChar c = false := h c rfl
    rw [Reading.rest?_cons, Reading.rest?_cons]
    simp only [Reading.step, other, Bool.false_eq_true, if_false]

/-- A text whose tokens are the given ones, wherever it stands between two tokens and before a
break. -/
def LexesAs (cs : List Char) (tokens : List Token) : Prop :=
  ∀ (before : List Token) (rest : List Char), Breaks rest →
    (Reading.after before).rest? (cs ++ rest) = (Reading.after (before ++ tokens)).rest? rest

theorem LexesAs.tokens? {s : String} {tokens : List Token} (h : LexesAs s.toList tokens) :
    tokens? s = some tokens := by
  have := h [] [] breaks_nil
  rwa [List.append_nil, List.nil_append] at this

theorem lexesAs_nil : LexesAs [] [] := by
  intro before rest _
  simp

/-- Texts next to each other, where no word can go on from one to the other. -/
theorem LexesAs.append {c : Char} {cs ds : List Char} {ts us : List Token} (h : LexesAs cs ts)
    (hc : isWordChar c = false) (h' : LexesAs (c :: ds) us) :
    LexesAs (cs ++ c :: ds) (ts ++ us) := by
  intro before rest hr
  have breaks : Breaks (c :: ds ++ rest) := breaks_cons hc
  rw [List.append_assoc, h _ _ breaks, h' _ _ hr, List.append_assoc]

/-! ## §3. Blanks, marks and words -/

theorem isWordChar_space {c : Char} (h : c = ' ' ∨ c = '\n') : isWordChar c = false := by
  rcases h with rfl | rfl <;> decide

/-- What is checked for each mark. -/
theorem of_isMark {p : Char → Bool} {c : Char} (hc : isMark c = true) (h : marks.all p = true) :
    p c = true :=
  List.all_eq_true.1 h c (by simpa [isMark] using hc)

theorem isWordChar_mark {c : Char} (h : isMark c = true) : isWordChar c = false := by
  have := of_isMark (p := fun d => !isWordChar d) h (by decide)
  simpa using this

/-- A blank or a line feed in front is no token. -/
theorem LexesAs.space {c : Char} {cs : List Char} {ts : List Token} (hc : c = ' ' ∨ c = '\n')
    (h : LexesAs cs ts) : LexesAs (c :: cs) ts := by
  intro before rest hr
  rw [List.cons_append, Reading.rest?_cons, Reading.step, Reading.start, if_pos hc,
    Option.bind_some, h _ _ hr]

theorem LexesAs.mark {c : Char} {cs : List Char} {ts : List Token} (hc : isMark c = true)
    (h : LexesAs cs ts) : LexesAs (c :: cs) (.mark c :: ts) := by
  have plain := of_isMark (p := fun d => d != ' ' && d != '\n' && d != '"') hc (by decide)
  simp only [Bool.and_eq_true, bne_iff_ne] at plain
  have noSpace : ¬(c = ' ' ∨ c = '\n') := not_or.2 plain.1
  have noQuote : c ≠ '"' := plain.2
  have noWord : ¬isWordChar c = true := by simp [isWordChar_mark hc]
  intro before rest hr
  rw [List.cons_append, Reading.rest?_cons, Reading.step, Reading.start, if_neg noSpace,
    if_neg noQuote, if_neg noWord, if_pos hc, Option.bind_some, h _ _ hr,
    List.append_assoc, List.singleton_append]

/-- A text, a blank or a line feed, and another text. -/
theorem LexesAs.thenSpace {c : Char} {cs ds : List Char} {ts us : List Token} (h : LexesAs cs ts)
    (hc : c = ' ' ∨ c = '\n') (h' : LexesAs ds us) : LexesAs (cs ++ c :: ds) (ts ++ us) :=
  h.append (isWordChar_space hc) (h'.space hc)

/-- A text, a mark, and another text. -/
theorem LexesAs.thenMark {c : Char} {cs ds : List Char} {ts us : List Token} (h : LexesAs cs ts)
    (hc : isMark c = true) (h' : LexesAs ds us) :
    LexesAs (cs ++ c :: ds) (ts ++ .mark c :: us) :=
  h.append (isWordChar_mark hc) (h'.mark hc)

theorem rest?_word (tokens : List Token) (read word rest : List Char)
    (h : word.all isWordChar = true) :
    Reading.rest? ⟨tokens, .inWord read⟩ (word ++ rest)
      = Reading.rest? ⟨tokens, .inWord (read ++ word)⟩ rest := by
  induction word generalizing read with
  | nil => simp
  | cons c word ih =>
    rw [List.all_cons, Bool.and_eq_true] at h
    rw [List.cons_append, Reading.rest?_cons]
    simp only [Reading.step, h.1, if_true, Option.bind_some]
    rw [ih _ h.2, List.append_assoc, List.singleton_append]

theorem lexesAs_word {s : String} (present : s ≠ "") (h : s.toList.all isWordChar = true) :
    LexesAs s.toList [.word s] := by
  intro before rest hr
  cases hs : s.toList with
  | nil => exact absurd (by simpa using hs) present
  | cons c word =>
    rw [hs, List.all_cons, Bool.and_eq_true] at h
    have hc := h.1
    have noSpace : ¬(c = ' ' ∨ c = '\n') := by
      intro space
      rw [isWordChar_space space] at hc
      cases hc
    have noQuote : c ≠ '"' := by
      rintro rfl
      exact absurd hc (by decide)
    rw [List.cons_append, Reading.rest?_cons, Reading.step, Reading.start, if_neg noSpace,
      if_neg noQuote, if_pos hc, Option.bind_some,
      rest?_word _ _ _ _ h.2, rest?_inWord hr,
      List.singleton_append, ← hs, String.ofList_toList]

/-! ## §4. Quoted texts -/

/-- The quotes stay open over a character that needs no care. -/
theorem rest?_quoted_plain {tokens : List Token} {read rest : List Char} {c : Char}
    (h : c ∉ ['\n', '\r', '\\', '"']) :
    Reading.rest? ⟨tokens, .inQuotes read⟩ (c :: rest)
      = Reading.rest? ⟨tokens, .inQuotes (read ++ [c])⟩ rest := by
  simp only [List.mem_cons, List.not_mem_nil, or_false, not_or] at h
  simp [Reading.step, h]

/-- The quotes stay open over a backslash and what it is for. -/
theorem rest?_quoted_backslash {tokens : List Token} {read rest : List Char} {c : Char}
    (h : c ≠ '\n' ∧ c ≠ '\r') :
    Reading.rest? ⟨tokens, .inQuotes read⟩ ('\\' :: c :: rest)
      = Reading.rest? ⟨tokens, .inQuotes (read ++ ['\\', c])⟩ rest := by
  simp [Reading.step, h]

theorem digit_plain {n : Nat} (h : n < 16) : Hex.digit n ∉ ['\n', '\r', '\\', '"'] := by
  have : ∀ m : Fin 16, Hex.digit m ∉ ['\n', '\r', '\\', '"'] := by decide
  exact this ⟨n, h⟩

/-- Inside quotes an escaped character is read as it is written. -/
theorem rest?_escapeChar (tokens : List Token) (read rest : List Char) (c : Char) :
    Reading.rest? ⟨tokens, .inQuotes read⟩ (Quoted.escapeChar c ++ rest)
      = Reading.rest? ⟨tokens, .inQuotes (read ++ Quoted.escapeChar c)⟩ rest := by
  unfold Quoted.escapeChar
  split
  · exact rest?_quoted_backslash (by decide)
  split
  · exact rest?_quoted_backslash (by decide)
  split
  · exact rest?_quoted_backslash (by decide)
  split
  · exact rest?_quoted_backslash (by decide)
  split
  · exact rest?_quoted_backslash (by decide)
  split
  · next control =>
    have small : c.toNat < 128 := by
      simp only [Quoted.isControl, Bool.or_eq_true, decide_eq_true_eq, beq_iff_eq] at control
      omega
    simp only [List.cons_append, List.nil_append]
    rw [rest?_quoted_backslash (by decide), rest?_quoted_plain (digit_plain (by omega)),
      rest?_quoted_plain (digit_plain (by omega))]
    simp
  · next backslash quote feed carriage _ _ =>
    exact rest?_quoted_plain (by simp [backslash, quote, feed, carriage])

theorem rest?_escapeChars (tokens : List Token) (read rest cs : List Char) :
    Reading.rest? ⟨tokens, .inQuotes read⟩ (Quoted.escapeChars cs ++ rest)
      = Reading.rest? ⟨tokens, .inQuotes (read ++ Quoted.escapeChars cs)⟩ rest := by
  induction cs generalizing read with
  | nil => simp [Quoted.escapeChars]
  | cons c cs ih =>
    have cons : Quoted.escapeChars (c :: cs) = Quoted.escapeChar c ++ Quoted.escapeChars cs :=
      List.flatMap_cons
    rw [cons, List.append_assoc, rest?_escapeChar, ih, List.append_assoc]

/-- **A quoted text is one token**, whatever characters are in it. -/
theorem lexesAs_literal (s : String) :
    LexesAs (Quoted.literal s).toList [.quoted (Quoted.escapeChars s.toList)] := by
  have spelled : (Quoted.literal s).toList = '"' :: (Quoted.escapeChars s.toList ++ ['"']) := by
    simp [Quoted.literal, Quoted.escape]
  intro before rest _
  rw [spelled, List.cons_append, List.append_assoc, Reading.rest?_cons]
  show Reading.rest? ⟨before, .inQuotes []⟩ _ = _
  rw [rest?_escapeChars]
  simp [Reading.step]

/-! ## §5. Indentation -/

/-- No quotes are open. -/
def Reading.Unquoted (r : Reading) : Prop :=
  match r.standing with
  | .between | .inWord _ => True
  | .inQuotes _ | .afterBackslash _ => False

/-- A line feed is refused inside quotes, and after it the reader stands between two tokens. -/
theorem step_lineFeed (r : Reading) :
    (r.step '\n' = none ∧ ¬ r.Unquoted) ∨
      ∃ tokens, r.step '\n' = some (.after tokens) ∧ r.finish? = some tokens ∧ r.Unquoted := by
  obtain ⟨tokens, standing⟩ := r
  cases standing with
  | between => exact .inr ⟨tokens, rfl, rfl, trivial⟩
  | inWord read => exact .inr ⟨tokens ++ [.word (.ofList read)], rfl, rfl, trivial⟩
  | inQuotes read => exact .inl ⟨rfl, id⟩
  | afterBackslash read => exact .inl ⟨rfl, id⟩

/-- A carriage return is refused everywhere. -/
theorem step_return (r : Reading) : r.step '\r' = none := by
  obtain ⟨tokens, standing⟩ := r
  cases standing <;> rfl

theorem rest?_indentation (tokens : List Token) (rest : List Char) :
    (Reading.after tokens).rest? (Text.indentation.toList ++ rest)
      = (Reading.after tokens).rest? rest := by
  simp [Text.indentation, Reading.step, Reading.start]

/-- **Indentation changes no token.** The line feed at the end of a text, which indentation drops,
is no token either. -/
theorem rest?_indentFrom {lineBegins : Bool} {r : Reading} {cs rest : List Char}
    (hr : Breaks rest) (begins : lineBegins = true → r.standing = .between)
    (read : (r.rest? cs).isSome = true) :
    r.rest? (Text.indentFrom lineBegins cs ++ rest) = r.rest? (cs ++ rest) := by
  fun_induction Text.indentFrom lineBegins cs generalizing r with
  | case1 => rfl
  | case2 b =>
    -- the line feed at the end
    rcases step_lineFeed r with ⟨refused, -⟩ | ⟨tokens, step, -, unquoted⟩
    · rw [Reading.rest?_cons, refused] at read
      cases read
    · rw [List.nil_append, List.cons_append, Reading.rest?_cons, step]
      obtain ⟨tokens', standing⟩ := r
      cases standing with
      | between => cases step; rfl
      | inWord word => cases step; exact rest?_inWord hr
      | inQuotes _ => exact unquoted.elim
      | afterBackslash _ => exact unquoted.elim
  | case3 b cs more ih =>
    rcases step_lineFeed r with ⟨refused, -⟩ | ⟨tokens, step, -, -⟩
    · rw [Reading.rest?_cons, refused] at read
      cases read
    · rw [Reading.rest?_cons, step, Option.bind_some] at read
      rw [List.cons_append, List.cons_append, Reading.rest?_cons, Reading.rest?_cons, step,
        Option.bind_some, Option.bind_some, ih (fun _ => rfl) read]
  | case4 b =>
    rw [Reading.rest?_cons, step_return] at read
    cases read
  | case5 b cs more ih =>
    rw [Reading.rest?_cons, step_return] at read
    cases read
  | case6 b c cs _ _ ih =>
    have moved : r.rest? ((if b = true then Text.indentation.toList else []) ++ c
        :: Text.indentFrom false cs ++ rest) = r.rest? (c :: Text.indentFrom false cs ++ rest) := by
      cases b with
      | false => rfl
      | true =>
        obtain ⟨tokens, standing⟩ := r
        obtain rfl : standing = .between := begins rfl
        rw [if_pos rfl, List.append_assoc, rest?_indentation]
    rw [moved, List.cons_append, List.cons_append, Reading.rest?_cons, Reading.rest?_cons]
    rw [Reading.rest?_cons] at read
    cases step : r.step c with
    | none => rfl
    | some next =>
      rw [step, Option.bind_some] at read
      rw [Option.bind_some, Option.bind_some, ih (by simp) read]

theorem LexesAs.indent {s : String} {ts : List Token} (h : LexesAs s.toList ts) :
    LexesAs (Text.indent s).toList ts := by
  intro before rest hr
  have read : ((Reading.after before).rest? s.toList).isSome = true := by
    have := h before [] breaks_nil
    rw [List.append_nil] at this
    rw [this]
    rfl
  rw [Text.toList_indent, rest?_indentFrom hr (fun _ => rfl) read, h _ _ hr]

/-! ## §6. Lists, lines and bodies -/

/-- Texts and their tokens, one by one. -/
abbrev AllLexAs (texts : List String) (tokens : List (List Token)) : Prop :=
  List.Forall₂ (fun s ts => LexesAs s.toList ts) texts tokens

/-- Texts on lines of their own. -/
theorem lexesAs_joinLines {texts : List String} {tokens : List (List Token)}
    (h : AllLexAs texts tokens) : LexesAs (Text.joinLines texts).toList tokens.flatten := by
  unfold Text.joinLines
  rw [String.toList_intercalate]
  induction h with
  | nil => exact lexesAs_nil
  | @cons text ts texts tokens head tail ih =>
    cases tail with
    | nil => simpa using head
    | @cons next us texts tokens _ _ =>
      rw [List.map_cons, List.map_cons, List.intercalate_cons_cons, List.flatten_cons,
        List.append_assoc]
      rw [List.map_cons] at ih
      exact head.thenSpace (.inr rfl) ih

/-- Texts with commas between them. -/
theorem lexesAs_commaList {texts : List String} {tokens : List (List Token)}
    (h : AllLexAs texts tokens) :
    LexesAs (commaList texts).toList ([Token.mark ','].intercalate tokens) := by
  unfold commaList
  rw [String.toList_intercalate]
  induction h with
  | nil => exact lexesAs_nil
  | @cons text ts texts tokens head tail ih =>
    cases tail with
    | nil => simpa using head
    | @cons next us texts tokens _ _ =>
      rw [List.map_cons, List.map_cons, List.intercalate_cons_cons, List.intercalate_cons_cons,
        List.append_assoc, List.append_assoc]
      rw [List.map_cons] at ih
      exact head.thenMark (by decide) (ih.space (.inl rfl))

/-- White space is no part of a token. -/
theorem not_isBlank_of_token {c : Char} (h : isWordChar c = true ∨ isMark c = true ∨ c = '"') :
    Text.isBlank c = false := by
  refine Text.isBlank_eq_false_of_visible ?_
  rcases h with h | h | rfl
  · change (decide (c.val ≥ 65 ∧ c.val ≤ 90) || c.val ≥ 97 && c.val ≤ 122
      || c.val ≥ 48 && c.val ≤ 57 || c == '_' || c == '$' || c == '.') = true at h
    simp only [Bool.or_eq_true, Bool.and_eq_true, decide_eq_true_eq, beq_iff_eq, ge_iff_le,
      UInt32.le_iff_toNat_le] at h
    change (((((65 ≤ c.toNat ∧ c.toNat ≤ 90) ∨ (97 ≤ c.toNat ∧ c.toNat ≤ 122)) ∨
      (48 ≤ c.toNat ∧ c.toNat ≤ 57)) ∨ c = '_') ∨ c = '$') ∨ c = '.' at h
    rcases h with ((h | rfl) | rfl) | rfl
    · omega
    all_goals decide
  · have := of_isMark (p := fun d => 33 ≤ d.toNat && d.toNat ≤ 127) h (by decide)
    simpa using this
  · decide

/-- Blanks alone are no token. -/
theorem rest?_blanks {tokens read : List Token} {cs : List Char}
    (blank : ∀ c ∈ cs, Text.isBlank c = true) (h : (Reading.after tokens).rest? cs = some read) :
    read = tokens := by
  induction cs with
  | nil =>
    cases h
    rfl
  | cons c cs ih =>
    have other : ¬(isWordChar c = true ∨ isMark c = true ∨ c = '"') := by
      intro token
      have := blank c List.mem_cons_self
      rw [not_isBlank_of_token token] at this
      cases this
    simp only [not_or] at other
    rw [Reading.rest?_cons, Reading.step, Reading.start] at h
    by_cases space : c = ' ' ∨ c = '\n'
    · rw [if_pos space, Option.bind_some] at h
      exact ih (fun d hd => blank d (List.mem_cons_of_mem c hd)) h
    · simp [space, other] at h

theorem isBlank_of_trim_eq_empty {s : String} (h : Text.trim s = "") :
    ∀ c ∈ s.toList, Text.isBlank c = true := by
  have trimmed : Text.trimChars s.toList = [] := by
    have := congrArg String.toList h
    rwa [Text.trim, String.toList_ofList] at this
  -- what is dropped from the front is blank, and so is all the rest
  have front : s.toList.takeWhile Text.isBlank ++ s.toList.dropWhile Text.isBlank = s.toList :=
    List.takeWhile_append_dropWhile
  have back : ∀ c ∈ s.toList.dropWhile Text.isBlank, Text.isBlank c = true := by
    rw [Text.trimChars, Text.dropEndWhile, List.reverse_eq_nil_iff, List.dropWhile_eq_nil_iff]
      at trimmed
    intro c hc
    exact trimmed c (List.mem_reverse.2 hc)
  intro c hc
  rw [← front, List.mem_append] at hc
  rcases hc with hc | hc
  · exact List.mem_takeWhile_imp hc
  · exact back c hc

/-- **A body in braces**: it is nothing exactly when it has no token. -/
theorem LexesAs.braced {body : String} {tokens : List Token} (h : LexesAs body.toList tokens) :
    LexesAs (braced body).toList (.mark '\x7b' :: (tokens ++ [.mark '\x7d'])) := by
  have opening : isMark '\x7b' = true := by decide
  have closing : isMark '\x7d' = true := by decide
  unfold Solidity.braced
  split
  · next blank =>
    have none : tokens = [] := by
      have read := h [] [] breaks_nil
      rw [List.append_nil, List.nil_append] at read
      exact rest?_blanks (isBlank_of_trim_eq_empty blank) read
    subst none
    exact (lexesAs_nil.mark closing).mark opening
  · have spelled : ("\x7b\n" ++ Text.indent body ++ "\n\x7d").toList
        = '\x7b' :: '\n' :: ((Text.indent body).toList ++ ['\n', '\x7d']) := by
      simp
    rw [spelled]
    have closed := h.indent.thenSpace (.inr rfl) (lexesAs_nil.mark closing)
    exact .mark opening (.space (.inr rfl) closed)

end FuzzBundle.Solidity.Assembly
