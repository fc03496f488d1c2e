/-
  FuzzBundle.Proofs.QuotedText — literals in printed source keep their text to themselves.

  What stands between the quotes of a literal is written character by character, and a character is
  written in one of two ways (`escapeChar_cases`): as itself, when it is plain, or as a backslash
  with a sign behind it. So the backslashes before any place come in pairs, except right behind the
  first half of such a pair, which is where every written quote stands. From this it follows that
  the quote that closes a literal is the first one that can (`literal_append_inj`).

  No control character is written, so no line ends inside a literal and indentation moves a literal
  without touching it.

  Main statements: `odd_backslashes_of_quote`, `exists_indent_literal`, `literal_kept`.
-/
import Mathlib.Algebra.Ring.Parity
import Mathlib.Logic.Function.Iterate
import FuzzBundle.Proofs.Indentation
import FuzzBundle.Text.Quoted

namespace FuzzBundle.Quoted

/-! ## §1. How a character is written -/

/-- A character that stands for itself inside a literal. -/
def IsPlain (c : Char) : Prop := isControl c = false ∧ c ≠ '\\' ∧ c ≠ '"'

theorem isPlain_digit {n : Nat} (h : n < 16) : IsPlain (Hex.digit n) := by
  have plain : ∀ m : Fin 16, isControl (Hex.digit m) = false
      ∧ Hex.digit m ≠ '\\' ∧ Hex.digit m ≠ '"' := by decide
  exact plain ⟨n, h⟩

/-- **The two ways to write a character**: a backslash, a sign and perhaps digits, or itself. -/
theorem escapeChar_cases (c : Char) :
    (∃ sign digits, escapeChar c = '\\' :: sign :: digits ∧ isControl sign = false
      ∧ ∀ d ∈ digits, IsPlain d)
    ∨ (escapeChar c = [c] ∧ IsPlain c) := by
  -- the five escapes of one letter
  have short (sign : Char) (visible : isControl sign = false) (h : escapeChar c = ['\\', sign]) :
      ∃ sign digits, escapeChar c = '\\' :: sign :: digits ∧ isControl sign = false
        ∧ ∀ d ∈ digits, IsPlain d :=
    ⟨sign, [], h, visible, by simp⟩
  by_cases backslash : c = '\\'
  · exact .inl (short '\\' (by decide) (by simp [escapeChar, backslash]))
  by_cases quote : c = '"'
  · exact .inl (short '"' (by decide) (by simp [escapeChar, quote]))
  by_cases feed : c = '\n'
  · exact .inl (short 'n' (by decide) (by simp [escapeChar, feed]))
  by_cases carriage : c = '\r'
  · exact .inl (short 'r' (by decide) (by simp [escapeChar, carriage]))
  by_cases tab : c = '\t'
  · exact .inl (short 't' (by decide) (by simp [escapeChar, tab]))
  cases control : isControl c with
  | true =>
    have small : c.toNat < 128 := by
      simp only [isControl, Bool.or_eq_true, decide_eq_true_eq, beq_iff_eq] at control
      omega
    refine .inl ⟨'x', [Hex.digit (c.toNat / 16), Hex.digit (c.toNat % 16)], ?_, by decide, ?_⟩
    · simp [escapeChar, backslash, quote, feed, carriage, tab, control]
    · intro d hd
      rcases List.mem_pair.1 hd with rfl | rfl
      · exact isPlain_digit (by omega)
      · exact isPlain_digit (by omega)
  | false =>
    refine .inr ⟨?_, control, backslash, quote⟩
    simp [escapeChar, backslash, quote, feed, carriage, tab, control]

theorem escapeChars_cons (c : Char) (cs : List Char) :
    escapeChars (c :: cs) = escapeChar c ++ escapeChars cs := List.flatMap_cons

/-- No control character is written. -/
theorem not_isControl_of_mem_escapeChars {cs : List Char} {c : Char} (h : c ∈ escapeChars cs) :
    isControl c = false := by
  obtain ⟨d, -, hd⟩ := List.mem_flatMap.1 h
  rcases escapeChar_cases d with ⟨sign, digits, eq, visible, plain⟩ | ⟨eq, plain⟩
  · rw [eq, List.mem_cons, List.mem_cons] at hd
    rcases hd with rfl | rfl | hd
    · decide
    · exact visible
    · exact (plain c hd).1
  · rw [eq, List.mem_singleton] at hd
    exact hd ▸ plain.1

/-! ## §2. Backslashes come in pairs -/

/-- How many backslashes a text ends with. -/
def closingBackslashes (cs : List Char) : Nat := (cs.reverse.takeWhile (· = '\\')).length

theorem closingBackslashes_snoc (cs : List Char) (c : Char) :
    closingBackslashes (cs ++ [c]) = if c = '\\' then closingBackslashes cs + 1 else 0 := by
  rw [closingBackslashes, List.reverse_append, List.reverse_singleton, List.singleton_append,
    List.takeWhile_cons]
  by_cases h : c = '\\' <;> simp [h, closingBackslashes]

/-- Behind plain characters there is no backslash, and without them all stays as it was. -/
theorem even_closingBackslashes_append {before digits : List Char}
    (h : Even (closingBackslashes before)) (plain : ∀ d ∈ digits, IsPlain d) :
    Even (closingBackslashes (before ++ digits)) := by
  rcases List.eq_nil_or_concat digits with rfl | ⟨init, last, rfl⟩
  · rwa [List.append_nil]
  · have apart : last ≠ '\\' := (plain last (by simp)).2.1
    rw [List.concat_eq_append, ← List.append_assoc, closingBackslashes_snoc, if_neg apart]
    exact Even.zero

/-- A written character leaves no backslash alone. -/
theorem even_closingBackslashes_escapeChar {before : List Char}
    (h : Even (closingBackslashes before)) (c : Char) :
    Even (closingBackslashes (before ++ escapeChar c)) := by
  rcases escapeChar_cases c with ⟨sign, digits, eq, -, plain⟩ | ⟨eq, plain⟩
  · have pair : Even (closingBackslashes (before ++ ['\\'] ++ [sign])) := by
      rw [closingBackslashes_snoc, closingBackslashes_snoc, if_pos rfl]
      split
      · exact h.add (by decide : Even 2)
      · exact Even.zero
    have split : before ++ escapeChar c = before ++ ['\\'] ++ [sign] ++ digits := by
      rw [eq]
      simp
    rw [split]
    exact even_closingBackslashes_append pair plain
  · rw [eq]
    exact even_closingBackslashes_append h (by simpa using plain)

theorem even_closingBackslashes_escapeChars (before : List Char)
    (h : Even (closingBackslashes before)) (cs : List Char) :
    Even (closingBackslashes (before ++ escapeChars cs)) := by
  induction cs generalizing before with
  | nil => simpa [escapeChars] using h
  | cons c cs ih =>
    rw [escapeChars_cons, ← List.append_assoc]
    exact ih _ (even_closingBackslashes_escapeChar h c)

/-- The quote of a written character is the second half of a pair. -/
theorem odd_backslashes_of_quote_escapeChar {before part after : List Char} {c : Char}
    (h : Even (closingBackslashes before)) (eq : escapeChar c = part ++ '"' :: after) :
    Odd (closingBackslashes (before ++ part)) := by
  rcases escapeChar_cases c with ⟨sign, digits, eq', -, plain⟩ | ⟨eq', plain⟩
  · rw [eq'] at eq
    match part with
    | [] => simp at eq
    | [first] =>
      obtain rfl : '\\' = first := (List.cons.inj eq).1
      rw [closingBackslashes_snoc, if_pos rfl]
      exact h.add_one
    | first :: second :: part =>
      -- beyond the sign there are digits only
      have quoted : '"' ∈ digits := by
        have tails : digits = part ++ '"' :: after := (List.cons.inj (List.cons.inj eq).2).2
        rw [tails]
        simp
      exact absurd rfl (plain '"' quoted).2.2
  · rw [eq'] at eq
    match part with
    | [] =>
      obtain rfl : c = '"' := (List.cons.inj eq).1
      exact absurd rfl plain.2.2
    | first :: part => simp at eq

/-- **Every written quote has a backslash of its own**: an odd number of them stands before it. -/
theorem odd_backslashes_of_quote (before : List Char) {part after cs : List Char}
    (h : Even (closingBackslashes before)) (eq : escapeChars cs = part ++ '"' :: after) :
    Odd (closingBackslashes (before ++ part)) := by
  induction cs generalizing before part with
  | nil => simp [escapeChars] at eq
  | cons c cs ih =>
    rw [escapeChars_cons, List.append_eq_append_iff] at eq
    rcases eq with ⟨later, rfl, eq⟩ | ⟨rest, eq, tail⟩
    · rw [← List.append_assoc]
      exact ih _ (even_closingBackslashes_escapeChar h c) eq
    · cases rest with
      | nil =>
        -- the quote begins what is written for the rest
        rw [List.append_nil] at eq
        have there : escapeChars cs = [] ++ '"' :: after := tail.symm
        have odd := ih _ (even_closingBackslashes_escapeChar h c) there
        rwa [List.append_nil, eq] at odd
      | cons first rest =>
        obtain rfl : '"' = first := (List.cons.inj tail).1
        exact odd_backslashes_of_quote_escapeChar h eq

/-! ## §3. Where a literal ends -/

theorem toList_escape (s : String) : (escape s).toList = escapeChars s.toList :=
  String.toList_ofList

theorem toList_literal (s : String) :
    (literal s).toList = '"' :: (escapeChars s.toList ++ ['"']) := by
  simp [literal, toList_escape]

/-- What is written for one text before a quote is never longer than for another one. -/
theorem length_escapeChars_le {cs ds rest rest' : List Char}
    (h : escapeChars cs ++ '"' :: rest = escapeChars ds ++ '"' :: rest') :
    (escapeChars ds).length ≤ (escapeChars cs).length := by
  by_contra shorter
  -- the first literal would end inside the second one, at a quote without a backslash of its own
  have inside : ∃ more, escapeChars ds = escapeChars cs ++ '"' :: more := by
    rcases List.append_eq_append_iff.1 h with ⟨more, eq, tail⟩ | ⟨more, eq, -⟩
    · cases more with
      | nil => simp [eq] at shorter
      | cons first more =>
        obtain rfl : '"' = first := (List.cons.inj tail).1
        exact ⟨more, eq⟩
    · simp [eq] at shorter
  obtain ⟨more, eq⟩ := inside
  have odd := odd_backslashes_of_quote [] Even.zero eq
  have even := even_closingBackslashes_escapeChars [] Even.zero cs
  exact Nat.not_even_iff_odd.2 odd even

/-- **A literal ends at its own closing quote**, whatever follows it. -/
theorem literal_append_inj {s t rest rest' : String}
    (h : literal s ++ rest = literal t ++ rest') : s = t ∧ rest = rest' := by
  have chars : escapeChars s.toList ++ '"' :: rest.toList
      = escapeChars t.toList ++ '"' :: rest'.toList := by
    have := congrArg String.toList h
    simpa [toList_literal] using this
  have lengths : (escapeChars s.toList).length = (escapeChars t.toList).length :=
    Nat.le_antisymm (length_escapeChars_le chars.symm) (length_escapeChars_le chars)
  obtain ⟨written, tails⟩ := List.append_inj chars lengths
  have read := congrArg unescape written
  rw [unescape_escape, unescape_escape, Option.some_inj] at read
  exact ⟨String.toList_inj.1 read, String.toList_inj.1 (List.cons.inj tails).2⟩

end FuzzBundle.Quoted

/-! ## §4. Indentation -/

namespace FuzzBundle.Text

/-- A character that ends no line stays, behind the indentation if a line begins with it. -/
theorem indentFrom_cons (lineBegins : Bool) {c : Char} {cs : List Char} (feed : c ≠ '\n')
    (carriage : ¬(c = '\r' ∧ cs.head? = some '\n')) :
    indentFrom lineBegins (c :: cs)
      = (if lineBegins then indentation.toList else []) ++ c :: indentFrom false cs := by
  rw [indentFrom]
  · exact feed
  · rintro rest rfl rfl
    exact carriage ⟨rfl, rfl⟩

/-- Inside a line, characters that end no line stay as they are. -/
theorem indentFrom_append {piece : List Char} (unbroken : ∀ c ∈ piece, c ≠ '\n' ∧ c ≠ '\r')
    (rest : List Char) : indentFrom false (piece ++ rest) = piece ++ indentFrom false rest := by
  induction piece with
  | nil => rfl
  | cons c piece ih =>
    have own := unbroken c List.mem_cons_self
    rw [List.cons_append, indentFrom_cons false own.1 (fun h => own.2 h.1),
      ih fun d hd => unbroken d (List.mem_cons_of_mem c hd)]
    rfl

/-- Where more follows a line end stays, and a line begins behind it. -/
theorem indentFrom_feed (lineBegins : Bool) {cs : List Char} (more : cs ≠ []) :
    indentFrom lineBegins ('\n' :: cs) = '\n' :: indentFrom true cs := by
  rw [indentFrom, if_neg more]

theorem indentFrom_return (lineBegins : Bool) {cs : List Char} (more : cs ≠ []) :
    indentFrom lineBegins ('\r' :: '\n' :: cs) = '\n' :: indentFrom true cs := by
  rw [indentFrom, if_neg more]

/-- What stands before a visible character is moved in the same way whatever follows. -/
theorem exists_indentFrom_before {c : Char} (feed : c ≠ '\n') (carriage : c ≠ '\r')
    (lineBegins : Bool) (before : List Char) :
    ∃ moved, ∀ rest,
      indentFrom lineBegins (before ++ c :: rest) = moved ++ c :: indentFrom false rest := by
  have start (b : Bool) (rest : List Char) : indentFrom b (c :: rest)
      = (if b then indentation.toList else []) ++ c :: indentFrom false rest :=
    indentFrom_cons b feed fun h => carriage h.1
  fun_induction indentFrom lineBegins before with
  | case1 b => exact ⟨_, start b⟩
  | case2 b =>
    refine ⟨'\n' :: indentation.toList, fun rest => ?_⟩
    rw [List.cons_append, List.nil_append, indentFrom_feed b (List.cons_ne_nil c rest), start]
    rfl
  | case3 b before _ ih =>
    obtain ⟨moved, eq⟩ := ih
    refine ⟨'\n' :: moved, fun rest => ?_⟩
    rw [List.cons_append, indentFrom_feed b (by simp), eq, List.cons_append]
  | case4 b =>
    refine ⟨'\n' :: indentation.toList, fun rest => ?_⟩
    rw [List.cons_append, List.cons_append, List.nil_append,
      indentFrom_return b (List.cons_ne_nil c rest), start]
    rfl
  | case5 b before _ ih =>
    obtain ⟨moved, eq⟩ := ih
    refine ⟨'\n' :: moved, fun rest => ?_⟩
    rw [List.cons_append, List.cons_append, indentFrom_return b (by simp), eq, List.cons_append]
  | case6 b d before notFeed notReturn ih =>
    obtain ⟨moved, eq⟩ := ih
    refine ⟨(if b then indentation.toList else []) ++ d :: moved, fun rest => ?_⟩
    -- what follows `d` begins with a line feed only if that stood there before
    have stays : ¬(d = '\r' ∧ (before ++ c :: rest).head? = some '\n') := by
      rintro ⟨rfl, head⟩
      cases before with
      | nil => exact feed (by simpa using head)
      | cons e before =>
        obtain rfl : e = '\n' := by simpa using head
        exact notReturn before rfl rfl
    rw [List.cons_append, indentFrom_cons b notFeed stays, eq]
    simp

/-- Blanks for some steps of indentation. -/
def blanks (steps : Nat) : String := String.ofList (List.replicate (4 * steps) ' ')

theorem indentation_append_blanks (steps : Nat) :
    indentation ++ blanks steps = blanks (steps + 1) := by
  apply String.toList_inj.1
  rw [String.toList_append, blanks, blanks, String.toList_ofList, String.toList_ofList,
    show 4 * (steps + 1) = 4 + 4 * steps by omega, List.replicate_add]
  rfl

/-- **A line that is not empty is moved as a whole**, step by step. -/
theorem iterate_indent_line {line : String} (present : line ≠ "") (unbroken : '\n' ∉ line.toList)
    (steps : Nat) : indent^[steps] line = blanks steps ++ line := by
  induction steps with
  | zero => simp [blanks]
  | succ steps ih =>
    have present' : blanks steps ++ line ≠ "" := by simp [present]
    have unbroken' : '\n' ∉ (blanks steps ++ line).toList := by
      simp [blanks, List.mem_replicate, unbroken]
    rw [Function.iterate_succ_apply', ih, indent, lines_line present' unbroken',
      List.map_singleton, indentLine, if_neg present', joinLines]
    rw [← indentation_append_blanks, String.append_assoc]
    rfl

end FuzzBundle.Text

namespace FuzzBundle.Quoted

theorem unbroken_literal (s : String) : ∀ c ∈ (literal s).toList, c ≠ '\n' ∧ c ≠ '\r' := by
  intro c hc
  have visible : isControl c = false := by
    rw [toList_literal, List.mem_cons, List.mem_append, List.mem_singleton] at hc
    rcases hc with rfl | hc | rfl
    · decide
    · exact not_isControl_of_mem_escapeChars hc
    · decide
  constructor
  · rintro rfl
    exact absurd visible (by decide)
  · rintro rfl
    exact absurd visible (by decide)

theorem literal_ne_empty (s : String) : literal s ≠ "" := by
  intro h
  have := congrArg String.toList h
  simp [toList_literal] at this

/-- Indentation moves what stands before a literal, and the literal stays as it is. -/
theorem exists_indent_literal (s before : String) :
    ∃ moved, ∀ after, ∃ after',
      Text.indent (before ++ literal s ++ after) = moved ++ literal s ++ after' := by
  obtain ⟨moved, eq⟩ := Text.exists_indentFrom_before (c := '"') (by decide) (by decide) true
    before.toList
  refine ⟨.ofList moved, fun after => ⟨.ofList (Text.indentFrom false after.toList), ?_⟩⟩
  have inner : ∀ c ∈ escapeChars s.toList ++ ['"'], c ≠ '\n' ∧ c ≠ '\r' := fun c hc =>
    unbroken_literal s c (by rw [toList_literal]; exact List.mem_cons_of_mem _ hc)
  have split : (before ++ literal s ++ after).toList
      = before.toList ++ '"' :: ((escapeChars s.toList ++ ['"']) ++ after.toList) := by
    simp [toList_literal]
  apply String.toList_inj.1
  rw [Text.toList_indent, split, eq, Text.indentFrom_append inner]
  simp [toList_literal]

/-- The same for any number of steps. -/
theorem exists_iterate_indent_literal (s : String) (steps : Nat) (before : String) :
    ∃ moved, ∀ after, ∃ after',
      Text.indent^[steps] (before ++ literal s ++ after) = moved ++ literal s ++ after' := by
  induction steps generalizing before with
  | zero => exact ⟨before, fun after => ⟨after, rfl⟩⟩
  | succ steps ih =>
    obtain ⟨once, eq⟩ := exists_indent_literal s before
    obtain ⟨moved, eqs⟩ := ih once
    refine ⟨moved, fun after => ?_⟩
    obtain ⟨middle, first⟩ := eq after
    obtain ⟨after', others⟩ := eqs middle
    exact ⟨after', by rw [Function.iterate_succ_apply, first, others]⟩

/-! ## §5. Literals keep their text -/

/-- **A literal keeps its text to itself.** What is written between the quotes reads back as the
text; it holds no control character, no quote without a backslash of its own before it, and at its
end no backslash without a partner. A line with a literal in it is indented as a whole, and in a
text of several lines the literal goes through indentation as it is. So a literal tells its text and
where it ends. -/
theorem literal_kept (s : String) :
    unescape (escape s).toList = some s.toList
      ∧ (∀ c ∈ (escape s).toList, isControl c = false)
      ∧ Text.lines (literal s) = [literal s]
      ∧ (∀ before after, (escape s).toList = before ++ '"' :: after →
          Odd (closingBackslashes before))
      ∧ Even (closingBackslashes (escape s).toList)
      ∧ (∀ (before after : String) (steps : Nat), '\n' ∉ (before ++ after).toList →
          Text.indent^[steps] (before ++ literal s ++ after)
            = Text.blanks steps ++ (before ++ literal s ++ after))
      ∧ (∀ (before : String) (steps : Nat), ∃ moved, ∀ after, ∃ after',
          Text.indent^[steps] (before ++ literal s ++ after) = moved ++ literal s ++ after')
      ∧ (∀ t rest rest', literal s ++ rest = literal t ++ rest' ↔ s = t ∧ rest = rest') := by
  have noFeed : '\n' ∉ (literal s).toList := fun h => (unbroken_literal s '\n' h).1 rfl
  rw [toList_escape]
  refine ⟨unescape_escape s.toList, fun c => not_isControl_of_mem_escapeChars,
    Text.lines_line (literal_ne_empty s) noFeed, ?quotes, ?ending, ?line, ?text, ?apart⟩
  case quotes => exact fun before after => odd_backslashes_of_quote [] Even.zero
  case ending => exact even_closingBackslashes_escapeChars [] Even.zero s.toList
  case line =>
    intro before after steps unbroken
    refine Text.iterate_indent_line ?_ ?_ steps
    · simp [literal_ne_empty]
    · rw [String.toList_append, List.mem_append, not_or] at unbroken
      simp [unbroken, noFeed]
  case text => exact fun before steps => exists_iterate_indent_literal s steps before
  case apart =>
    intro t rest rest'
    constructor
    · exact literal_append_inj
    · rintro ⟨rfl, rfl⟩
      rfl

/-- A quote and a line feed in a literal, two steps deep. -/
theorem literal_kept_quote :
    (escape "a\"\n").toList = "a\\".toList ++ '"' :: "\\n".toList
      ∧ Odd (closingBackslashes "a\\".toList)
      ∧ '\n' ∉ ("return " ++ ";").toList
      ∧ Text.indent^[2] ("return " ++ literal "a\"\n" ++ ";") = "        return \"a\\\"\\n\";" := by
  obtain ⟨-, -, -, quotes, -, line, -, -⟩ := literal_kept "a\"\n"
  have written : (escape "a\"\n").toList = "a\\".toList ++ '"' :: "\\n".toList := by decide
  have unbroken : '\n' ∉ ("return " ++ ";").toList := by decide
  refine ⟨written, quotes _ _ written, unbroken, ?_⟩
  rw [line "return " ";" 2 unbroken]
  decide

end FuzzBundle.Quoted
