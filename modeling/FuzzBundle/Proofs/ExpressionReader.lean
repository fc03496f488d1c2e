/-
  FuzzBundle.Proofs.ExpressionReader — a reader of printed expressions.

  `readExpr` reads one expression off the front of a text: prefix operators, a name, a number or a
  bracket, suffixes, an operator behind, and other operands. It goes by the next characters alone.
  So it has to be known which characters may follow an expression or a part of it, such that the
  part is not read on, and with which ones no expression begins.

  Main statements: `Primary.unsigned`, `Expr.exists_cons`, `readAtom_word`.
-/
import FuzzBundle.Proofs.ExpressionSigns
import FuzzBundle.Proofs.ExpressionWords

namespace FuzzBundle.Solidity.Parenthesized

/-! ## §1. Readers -/

/-- Reads the unit of a number, if there is one. -/
def readDenomination : Reader Char (Option Denomination)
  | ' ' :: cs =>
    match readRun (· ∈ denominations) isWordChar cs with
    | some (unit, cs) => some (some unit, cs)
    | none => some (none, ' ' :: cs)
  | cs => some (none, cs)

/-- What stands between the items of a list. -/
abbrev comma : List Char := [',', ' ']

def readComponent (read : Reader Char Expr) : Reader Char Component := fun cs =>
  if cs.head? = some ',' ∨ cs.head? = some ')' then some (.missing, cs)
  else (read cs).map fun (e, cs) => (.given e, cs)

/-- What parentheses around some components are. -/
def inParentheses : Component × List Component → Primary
  | (.missing, []) => .nothing
  | (.given e, []) => .parens e
  | (first, second :: more) => .tuple first second more

/-- Reads an expression to which a suffix may be added, its first part. -/
def readAtom (read : Reader Char Expr) (fuel : Nat) : Reader Char Primary
  | '(' :: cs =>
    match readListed comma (readComponent read) fuel cs with
    | some (components, ')' :: cs) => some (inParentheses components, cs)
    | _ => none
  | '[' :: cs => (readEnclosed comma ']' read fuel cs).map fun (es, cs) => (.array es, cs)
  | cs =>
    match readNumeral cs with
    | some (value, cs) => (readDenomination cs).map fun (unit, cs) => (.number value unit, cs)
    | none =>
      (readRun (fun s => IsWord s ∧ s ≠ "delete") isWordChar cs).map fun (x, cs) => (.name x, cs)

/-- Reads suffixes of an expression as long as one begins. -/
def readSuffixes (read : Reader Char Expr) (fuel : Nat) : Nat → Primary → Reader Char Primary
  | 0, _, _ => none
  | count + 1, p, '.' :: cs =>
    (readRun IsWord isWordChar cs).bind fun (field, cs) =>
      readSuffixes read fuel count (.member p field) cs
  | count + 1, p, '[' :: ']' :: cs => readSuffixes read fuel count (.whole p) cs
  | count + 1, p, '[' :: cs =>
    match read cs with
    | some (place, ']' :: cs) => readSuffixes read fuel count (.index p place) cs
    | _ => none
  | count + 1, p, '(' :: cs =>
    (readEnclosed comma ')' read fuel cs).bind fun (arguments, cs) =>
      readSuffixes read fuel count (.call p arguments) cs
  | _ + 1, p, cs => some (p, cs)

def readPrimary (read : Reader Char Expr) (fuel count : Nat) : Reader Char Primary := fun cs =>
  (readAtom read fuel cs).bind fun (p, cs) => readSuffixes read fuel count p cs

/-- Reads an operator behind an expression, if one begins. -/
def readStep : List Char → Option Step × List Char
  | '+' :: '+' :: cs => (some .increment, cs)
  | '-' :: '-' :: cs => (some .decrement, cs)
  | cs => (none, cs)

def readOperand (read : Reader Char Expr) (fuel : Nat) : Reader Char Operand := fun cs =>
  (readPrimary read fuel (fuel + 1) (readSigns cs).2).map fun (core, rest) =>
    (.mk (readSigns cs).1 core (readStep rest).1, (readStep rest).2)

/-- A character of an operator between operands. -/
def isOperatorChar (c : Char) : Bool := c != ' '

/-- Reads what comes after the first operand of an expression. -/
def readOthers (readOperand : Reader Char Operand) (left : Operand) : Reader Char Expr
  | ' ' :: '?' :: ' ' :: cs =>
    match readOperand cs with
    | some (yes, ' ' :: ':' :: ' ' :: cs) =>
      (readOperand cs).map fun (no, cs) => (.conditional left yes no, cs)
    | _ => none
  | ' ' :: cs =>
    match readRun (· ∈ binaryOperators) isOperatorChar cs with
    | some (operator, cs) =>
      (readOperand (cs.drop 1)).map fun (right, cs) => (.binary left operator right, cs)
    | none =>
      (readRun (· ∈ assignmentOperators) isOperatorChar cs).bind fun (operator, cs) =>
        (readOperand (cs.drop 1)).map fun (right, cs) => (.assign left operator right, cs)
  | cs => some (.operand left, cs)

def readExpr : Nat → Reader Char Expr
  | 0, _ => none
  | fuel + 1, cs =>
    (readOperand (readExpr fuel) fuel cs).bind fun (left, cs) =>
      readOthers (readOperand (readExpr fuel) fuel) left cs

/-! ## §2. What may follow -/

/-- No word or number goes on here, and no unit follows. -/
structure AtomEnds (cs : List Char) : Prop where
  word : cs.head?.any isWordChar = false
  point : ∀ ds, cs = '.' :: ds → ds.head?.any Char.isDigit = false
  unit : ∀ ds, cs = ' ' :: ds → ds.head?.any isWordChar = false

/-- An expression ends here: at the end of the text, of parentheses or brackets, or at a comma. -/
def ExprEnds (cs : List Char) : Prop := ∀ c ∈ cs.head?, c ∈ [')', ']', ',']

/-- An operand ends here: with the expression, or before an operator. -/
def OperandEnds (cs : List Char) : Prop :=
  ExprEnds cs ∨ ∃ ds, cs = ' ' :: ds ∧ ds.head?.any isWordChar = false

/-- No word, number or unit goes on where a character stands that is in none of them. -/
theorem atomEnds_cons {c : Char} (word : isWordChar c = false) (point : c ≠ '.') (space : c ≠ ' ')
    (cs : List Char) : AtomEnds (c :: cs) where
  word := word
  point := by
    rintro _ ⟨⟩
    exact absurd rfl point
  unit := by
    rintro _ ⟨⟩
    exact absurd rfl space

theorem OperandEnds.atomEnds {cs : List Char} (h : OperandEnds cs) : AtomEnds cs := by
  rcases h with h | ⟨ds, rfl, noWord⟩
  · cases cs with
    | nil => exact ⟨rfl, nofun, nofun⟩
    | cons c cs =>
      have closing := h c rfl
      simp only [List.mem_cons, List.not_mem_nil, or_false] at closing
      rcases closing with rfl | rfl | rfl <;> exact atomEnds_cons rfl (by decide) (by decide) cs
  · refine ⟨rfl, nofun, ?_⟩
    rintro _ ⟨⟩
    exact noWord

/-- What follows an operand is no suffix and no operator behind it. -/
theorem OperandEnds.head_ne {cs : List Char} (h : OperandEnds cs) {c : Char}
    (hc : c ∈ ['.', '[', '(', '+', '-']) : cs.head? ≠ some c := by
  intro same
  obtain ⟨d, cs, rfl⟩ := List.exists_cons_of_ne_nil (List.ne_nil_of_mem (List.mem_of_head? same))
  obtain rfl : d = c := by simpa using same
  have other : d ∉ [')', ']', ',', ' '] := by
    simp only [List.mem_cons, List.not_mem_nil, or_false] at hc
    rcases hc with rfl | rfl | rfl | rfl | rfl <;> decide
  rcases h with h | ⟨ds, h, -⟩
  · have closing := h d rfl
    exact other (by simp only [List.mem_cons, List.not_mem_nil, or_false] at closing ⊢; tauto)
  · cases h
    exact other (by simp)

/-! ## §3. How expressions begin -/

theorem atomEnds_field (field : Word) (rest : List Char) :
    AtomEnds ('.' :: (field.val.toList ++ rest)) where
  word := rfl
  point := by
    rintro _ ⟨⟩
    obtain ⟨-, first⟩ := field.property
    cases spelled : field.val.toList with
    | nil => rw [spelled] at first; cases first
    | cons c cs => rw [spelled] at first; simpa using first
  unit := nofun

/-- A word is some characters of words. -/
theorem IsWord.exists_cons {s : String} (h : IsWord s) :
    ∃ c cs, s.toList = c :: cs ∧ isWordChar c = true ∧ c.isDigit = false := by
  obtain ⟨all, first⟩ := h
  cases spelled : s.toList with
  | nil => rw [spelled] at first; cases first
  | cons c cs =>
    rw [spelled] at all first
    rw [List.all_cons, Bool.and_eq_true] at all
    exact ⟨c, cs, rfl, all.1, by simpa using first⟩

theorem unsigned_of_head {c : Char} (cs : List Char) (h : c ∉ ['-', '+', '!', '~', 'd']) :
    Unsigned (c :: cs) := by
  rw [Unsigned, readSigns]
  all_goals
    rintro _ ⟨⟩
    exact h (by simp)

/-- A name is read as no operator, not even when it begins like one. -/
theorem unsigned_name (x : Name) {rest : List Char} (ends : rest.head?.any isWordChar = false) :
    Unsigned (x.val.toList ++ rest) := by
  obtain ⟨c, cs, spelled, word, -⟩ := x.property.1.exists_cons
  have head {d : Char} {ds : List Char} (other : isWordChar d = false) :
      x.val.toList ++ rest ≠ d :: ds := by
    rw [spelled, List.cons_append]
    rintro ⟨⟩
    rw [word] at other
    cases other
  rw [Unsigned, readSigns]
  · exact fun _ => head (by decide)
  · exact fun _ => head (by decide)
  · exact fun _ => head (by decide)
  · exact fun _ => head (by decide)
  · exact fun _ => head (by decide)
  · -- only the name that is the word of the operator would be read as the operator
    intro ds h
    have run := takeWhile_append_ends x.property.1.1 ends
    rw [h] at run
    exact x.property.2 (String.toList_inj.1 run.symm)

theorem Numeral.exists_cons (v : Numeral) :
    ∃ c cs, v.text = c :: cs ∧ (c.isDigit = true ∨ c = '.') := by
  obtain ⟨significand, exponent⟩ := v
  cases significand with
  | whole digits | decimal digits _ =>
    obtain ⟨c, cs, spelled, digit⟩ := digits.exists_cons
    simp only [Numeral.text, Significand.text, spelled, List.cons_append]
    exact ⟨c, _, rfl, .inl digit⟩
  | fraction digits => exact ⟨'.', _, rfl, .inr rfl⟩

theorem Numeral.unsigned (v : Numeral) (rest : List Char) : Unsigned (v.text ++ rest) := by
  obtain ⟨c, cs, spelled, first⟩ := v.exists_cons
  rw [spelled, List.cons_append]
  refine unsigned_of_head _ fun sign => ?_
  simp only [List.mem_cons, List.not_mem_nil, or_false] at sign
  rcases sign with rfl | rfl | rfl | rfl | rfl <;> exact absurd first (by decide)

/-- No prefix operator begins where a primary expression begins. -/
theorem Primary.unsigned : (p : Primary) → ∀ rest, AtomEnds rest → Unsigned (p.text ++ rest)
  | .name x, rest, ends => by
    rw [Primary.text]
    exact unsigned_name x ends.word
  | .number value none, rest, _ => by
    rw [Primary.text]
    exact value.unsigned rest
  | .number value (some _), rest, _ => by
    rw [Primary.text, List.append_assoc]
    exact value.unsigned _
  | .member base field, rest, _ => by
    rw [Primary.text, List.append_assoc]
    exact Primary.unsigned base _ (atomEnds_field field rest)
  | .index base place, rest, _ => by
    rw [Primary.text, List.append_assoc]
    exact Primary.unsigned base _ (atomEnds_cons rfl (by decide) (by decide) _)
  | .whole base, rest, _ => by
    rw [Primary.text, List.append_assoc]
    exact Primary.unsigned base _ (atomEnds_cons rfl (by decide) (by decide) _)
  | .call callee arguments, rest, _ => by
    rw [Primary.text, List.append_assoc]
    exact Primary.unsigned callee _ (atomEnds_cons rfl (by decide) (by decide) _)
  | .array _, _, _ | .nothing, _, _ | .parens _, _, _ | .tuple _ _ _, _, _ => by
    rw [Primary.text]
    exact unsigned_of_head _ (by decide)

/-- The characters with which no expression begins. -/
abbrev closings : List Char := [')', ']', ',']

theorem not_mem_closings {c : Char} (h : isWordChar c = true) : c ∉ closings := by
  intro closing
  simp only [List.mem_cons, List.not_mem_nil, or_false] at closing
  rcases closing with rfl | rfl | rfl <;> exact absurd h (by decide)

theorem Primary.exists_cons : (p : Primary) → ∃ c cs, p.text = c :: cs ∧ c ∉ closings
  | .name x => by
    obtain ⟨c, cs, spelled, word, -⟩ := x.property.1.exists_cons
    exact ⟨c, cs, by rw [Primary.text, spelled], not_mem_closings word⟩
  | .number value unit => by
    obtain ⟨c, cs, spelled, first⟩ := value.exists_cons
    have apart : c ∉ closings := by
      rcases first with digit | rfl
      · exact not_mem_closings (by simp [isWordChar, Char.isAlphanum, digit])
      · decide
    cases unit with
    | none => exact ⟨c, cs, by rw [Primary.text, spelled], apart⟩
    | some _ => exact ⟨c, _, by rw [Primary.text, spelled, List.cons_append], apart⟩
  | .member base _ | .index base _ | .whole base | .call base _ => by
    obtain ⟨c, cs, spelled, apart⟩ := Primary.exists_cons base
    exact ⟨c, _, by rw [Primary.text, spelled, List.cons_append], apart⟩
  | .array _ | .nothing | .parens _ | .tuple _ _ _ => by
    rw [Primary.text]
    exact ⟨_, _, rfl, by decide⟩

theorem Operand.exists_cons : (o : Operand) → ∃ c cs, o.text = c :: cs ∧ c ∉ closings
  | .mk [] core after => by
    obtain ⟨c, cs, spelled, apart⟩ := core.exists_cons
    cases after with
    | none => exact ⟨c, cs, by rw [Operand.text, spelled]; rfl, apart⟩
    | some _ => exact ⟨c, _, by rw [Operand.text, spelled]; rfl, apart⟩
  | .mk (sign :: signs) core after => by
    obtain ⟨c, cs, spelled, apart⟩ : ∃ c cs, sign.text = c :: cs ∧ c ∉ closings := by
      cases sign <;> exact ⟨_, _, rfl, by decide⟩
    cases after with
    | none => exact ⟨c, _, by rw [Operand.text, signsText_cons, spelled]; rfl, apart⟩
    | some _ => exact ⟨c, _, by rw [Operand.text, signsText_cons, spelled]; rfl, apart⟩

theorem Expr.exists_cons (e : Expr) : ∃ c cs, e.text = c :: cs ∧ c ∉ closings := by
  cases e with
  | operand o => rw [Expr.text]; exact o.exists_cons
  | binary left _ _ | assign left _ _ | conditional left _ _ =>
    obtain ⟨c, cs, spelled, apart⟩ := left.exists_cons
    exact ⟨c, _, by rw [Expr.text, spelled, List.cons_append], apart⟩

/-- Outside parentheses and brackets an expression begins with a number or a name. -/
theorem readAtom_word {read : Reader Char Expr} {size : Nat} {c : Char} {cs : List Char}
    (h : isWordChar c = true ∨ c = '.') :
    readAtom read size (c :: cs) =
      match readNumeral (c :: cs) with
      | some (value, cs) => (readDenomination cs).map fun (unit, cs) => (.number value unit, cs)
      | none => (readRun (fun s => IsWord s ∧ s ≠ "delete") isWordChar (c :: cs)).map
          fun (x, cs) => (.name x, cs) := by
  rw [readAtom]
  all_goals
    rintro _ ⟨⟩
    exact absurd h (by decide)

end FuzzBundle.Solidity.Parenthesized
