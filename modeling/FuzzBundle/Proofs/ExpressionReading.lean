/-
  FuzzBundle.Proofs.ExpressionReading — what a printed expression is read as.

  Reading what was printed gives the tree with its prefix operators as the text shows them
  (`readExpr_text`), and that is the only thing that printing loses: two expressions have the same
  text if and only if they are read as the same tree. A minus in front of a minus is lost, for the
  two are a decrement.

  Main statements: `readOperand_text`, `readExpr_text`, `expression_eq_iff`.
-/
import FuzzBundle.Proofs.PrimaryReading

namespace FuzzBundle.Solidity.Parenthesized

/-! ## §1. Operands and expressions -/

theorem readSuffixes_ends {read : Reader Char Expr} {size count : Nat} {p : Primary}
    {rest : List Char} (ends : ∀ c ∈ ['.', '[', '('], rest.head? ≠ some c) :
    readSuffixes read size (count + 1) p rest = some (p, rest) := by
  rw [readSuffixes]
  · rintro cs rfl
    exact ends '.' (by decide) rfl
  · rintro cs rfl
    exact ends '[' (by decide) rfl
  · rintro cs rfl
    exact ends '[' (by decide) rfl
  · rintro cs rfl
    exact ends '(' (by decide) rfl

theorem readStep_append (step : Step) (rest : List Char) :
    readStep (step.operator.toList ++ rest) = (some step, rest) := by
  cases step <;> rfl

/-- An operator behind an expression is part of no word, number or suffix. -/
theorem atomEnds_step (step : Step) (rest : List Char) :
    AtomEnds (step.operator.toList ++ rest) := by
  cases step with
  | increment => exact atomEnds_cons (c := '+') rfl (by decide) (by decide) ('+' :: rest)
  | decrement => exact atomEnds_cons (c := '-') rfl (by decide) (by decide) ('-' :: rest)

theorem head?_step_ne (step : Step) (rest : List Char) {c : Char} (hc : c ∈ ['.', '[', '(']) :
    (step.operator.toList ++ rest).head? ≠ some c := by
  have first : ∃ d, (step.operator.toList ++ rest).head? = some d ∧ d ∉ ['.', '[', '('] := by
    cases step with
    | increment => exact ⟨'+', rfl, by decide⟩
    | decrement => exact ⟨'-', rfl, by decide⟩
  obtain ⟨d, head, other⟩ := first
  rw [head]
  rintro ⟨⟩
  exact other hc

/-- **An operand is read**, with the prefix operators that its text shows. -/
theorem readOperand_text {read : Reader Char Expr} {size : Nat} (reads : ReadsUpTo size read)
    (o : Operand) (enough : sizeOf o ≤ size) {rest : List Char} (ends : OperandEnds rest) :
    readOperand read size (o.text ++ rest) = some (o.fused, rest) := by
  obtain ⟨signs, core, after⟩ := o
  rw [Operand.mk.sizeOf_spec] at enough
  have le := core.suffixes_le
  obtain ⟨count, total⟩ : ∃ count, size + 1 = core.suffixes + (count + 1) :=
    ⟨size - core.suffixes, by omega⟩
  have core_read {rest' : List Char} (atom : AtomEnds rest')
      (other : ∀ c ∈ ['.', '[', '('], rest'.head? ≠ some c) :
      readPrimary read size (size + 1) (core.text ++ rest') = some (core.fused, rest') := by
    rw [total, readPrimary_text reads core (by omega) _ _ atom, readSuffixes_ends other]
  cases after with
  | none =>
    have signs_read := readSigns_signsText signs (core.unsigned rest ends.atomEnds)
    have step : readStep rest = (none, rest) := by
      rw [readStep]
      · rintro cs rfl
        exact ends.head_ne (c := '+') (by decide) rfl
      · rintro cs rfl
        exact ends.head_ne (c := '-') (by decide) rfl
    have other : ∀ c ∈ ['.', '[', '('], rest.head? ≠ some c := fun c hc =>
      ends.head_ne (by simp only [List.mem_cons, List.not_mem_nil, or_false] at hc ⊢; tauto)
    rw [Operand.text, Operand.fused, List.append_assoc, readOperand, signs_read,
      core_read ends.atomEnds other, Option.map_some]
    simp only [step]
  | some step =>
    have atom := atomEnds_step step rest
    have signs_read := readSigns_signsText signs (core.unsigned _ atom)
    rw [Operand.text, Operand.fused, List.append_assoc, List.append_assoc, readOperand, signs_read,
      core_read atom fun c hc => head?_step_ne step rest hc, Option.map_some]
    simp only [readStep_append]

/-- What is checked for each operator between operands. -/
theorem operator_cases (s : String) (h : s ∈ binaryOperators ∨ s ∈ assignmentOperators) :
    s.toList.all isOperatorChar = true ∧ s.toList.head?.any isWordChar = false ∧ s ≠ "?" := by
  have all : (binaryOperators ++ assignmentOperators).all (fun s =>
      s.toList.all isOperatorChar && !s.toList.head?.any isWordChar && s != "?") = true := by decide
  have checked := List.all_eq_true.1 all s (by simpa using h)
  simpa [and_assoc] using checked

theorem not_mem_binaryOperators {s : String} (h : s ∈ assignmentOperators) :
    s ∉ binaryOperators := by
  have all : assignmentOperators.all (fun s => !binaryOperators.contains s) = true := by decide
  have checked := List.all_eq_true.1 all s h
  simpa using checked

/-- An operand ends before an operator. -/
theorem operandEnds_operator {s : String} (h : s ∈ binaryOperators ∨ s ∈ assignmentOperators)
    (rest : List Char) : OperandEnds (' ' :: (s.toList ++ ' ' :: rest)) := by
  refine .inr ⟨_, rfl, ?_⟩
  have first := (operator_cases s h).2.1
  cases spelled : s.toList with
  | nil => rfl
  | cons c cs => rw [spelled] at first; exact first

/-- What is between operands is no question mark. -/
theorem operator_ne_question {s : String} (h : s ∈ binaryOperators ∨ s ∈ assignmentOperators)
    (rest cs : List Char) : s.toList ++ ' ' :: rest ≠ '?' :: ' ' :: cs := by
  intro same
  have ends : (' ' :: rest).head?.any isOperatorChar = false := rfl
  have run := takeWhile_append_ends (operator_cases s h).1 ends
  rw [same] at run
  exact (operator_cases s h).2.2 (String.toList_inj.1 run.symm)

variable {read : Reader Char Operand}

theorem readOthers_ends (left : Operand) {rest : List Char} (ends : ExprEnds rest) :
    readOthers read left rest = some (.operand left, rest) := by
  rw [readOthers]
  · rintro cs rfl
    exact absurd (ends ' ' rfl) (by decide)
  · rintro cs rfl
    exact absurd (ends ' ' rfl) (by decide)

theorem readOthers_binary (left : Operand) (operator : BinaryOperator) (rest : List Char) :
    readOthers read left (' ' :: (operator.val.toList ++ ' ' :: rest))
      = (read rest).map fun (right, cs) => (.binary left operator right, cs) := by
  have known : operator.val ∈ binaryOperators ∨ operator.val ∈ assignmentOperators :=
    .inl operator.property
  have ends : (' ' :: rest).head?.any isOperatorChar = false := rfl
  rw [readOthers, readRun_append operator (operator_cases _ known).1 ends]
  · rfl
  · exact fun cs => operator_ne_question known rest cs

theorem readOthers_assign (left : Operand) (operator : AssignmentOperator) (rest : List Char) :
    readOthers read left (' ' :: (operator.val.toList ++ ' ' :: rest))
      = (read rest).map fun (right, cs) => (.assign left operator right, cs) := by
  have known : operator.val ∈ binaryOperators ∨ operator.val ∈ assignmentOperators :=
    .inr operator.property
  have ends : (' ' :: rest).head?.any isOperatorChar = false := rfl
  have notBinary : readRun (· ∈ binaryOperators) isOperatorChar
      (operator.val.toList ++ ' ' :: rest) = none := by
    refine readRun_eq_none ?_
    rw [takeWhile_append_ends (operator_cases _ known).1 ends, String.ofList_toList]
    exact not_mem_binaryOperators operator.property
  rw [readOthers, notBinary]
  · rw [readRun_append operator (operator_cases _ known).1 ends]
    rfl
  · exact fun cs => operator_ne_question known rest cs

theorem readExpr_of_operand {fuel : Nat} {left : Operand} {cs rest : List Char}
    (h : readOperand (readExpr fuel) fuel cs = some (left, rest)) :
    readExpr (fuel + 1) cs = readOthers (readOperand (readExpr fuel) fuel) left rest := by
  rw [readExpr, h]
  rfl

/-- **Reading the text of an expression gives the tree that the text shows**, with fuel for the size
of the tree. -/
theorem readExpr_text {fuel : Nat} {e : Expr} (enough : sizeOf e ≤ fuel) {rest : List Char}
    (ends : ExprEnds rest) : readExpr fuel (e.text ++ rest) = some (e.fused, rest) := by
  induction fuel generalizing e rest with
  | zero => cases e <;> simp at enough
  | succ fuel ih =>
    have reads : ReadsUpTo fuel (readExpr fuel) := fun e size rest ends => ih size ends
    have operand (o : Operand) (size : sizeOf o ≤ fuel) {rest : List Char}
        (ends : OperandEnds rest) :
        readOperand (readExpr fuel) fuel (o.text ++ rest) = some (o.fused, rest) :=
      readOperand_text reads o size ends
    cases e with
    | operand o =>
      rw [Expr.operand.sizeOf_spec] at enough
      rw [Expr.text, Expr.fused, readExpr_of_operand (operand o (by omega) (.inl ends)),
        readOthers_ends _ ends]
    | binary left operator right =>
      rw [Expr.binary.sizeOf_spec] at enough
      rw [Expr.text, Expr.fused, List.append_assoc, List.cons_append, List.append_assoc,
        List.cons_append, readExpr_of_operand (operand left (by omega)
          (operandEnds_operator (.inl operator.property) _)), readOthers_binary,
        operand right (by omega) (.inl ends)]
      rfl
    | assign left operator right =>
      rw [Expr.assign.sizeOf_spec] at enough
      rw [Expr.text, Expr.fused, List.append_assoc, List.cons_append, List.append_assoc,
        List.cons_append, readExpr_of_operand (operand left (by omega)
          (operandEnds_operator (.inr operator.property) _)), readOthers_assign,
        operand right (by omega) (.inl ends)]
      rfl
    | conditional condition yes no =>
      rw [Expr.conditional.sizeOf_spec] at enough
      have ends_before (c : Char) (h : isWordChar c = false) (cs : List Char) :
          OperandEnds (' ' :: c :: cs) := .inr ⟨_, rfl, h⟩
      rw [Expr.text, Expr.fused, List.append_assoc]
      simp only [List.cons_append, List.append_assoc]
      rw [readExpr_of_operand (operand condition (by omega) (ends_before '?' (by decide) _)),
        readOthers, operand yes (by omega) (ends_before ':' (by decide) _)]
      simp only [operand no (by omega) (.inl ends), Option.map_some]

/-! ## §2. Two trees with one text -/

/-- **Two expressions have the same text if and only if they are read as the same tree.** So
printing loses nothing where no prefix minus stands right in front of a prefix minus or
decrement. -/
theorem expression_eq_iff (w w' : Writer) {e e' : Expr} {n n' : Node} (h : e.At n) (h' : e'.At n') :
    (w.expression n = w'.expression n' ↔ e.fused = e'.fused)
      ∧ (e.Apart → e'.Apart → w.expression n = w'.expression n' → e = e') := by
  have text := Expr.At.toList_expression w e n h
  have text' := Expr.At.toList_expression w' e' n' h'
  have iff : w.expression n = w'.expression n' ↔ e.fused = e'.fused := by
    rw [← String.toList_inj, text, text']
    constructor
    · intro same
      have nothing : ExprEnds [] := by
        rintro c ⟨⟩
      have read := readExpr_text (Nat.le_max_left (sizeOf e) (sizeOf e')) nothing
      rw [same, readExpr_text (Nat.le_max_right (sizeOf e) (sizeOf e')) nothing] at read
      exact (Prod.mk.inj (Option.some.inj read)).1.symm
    · intro same
      rw [← e.text_fused, same, e'.text_fused]
  refine ⟨iff, fun apart apart' same => ?_⟩
  rw [← Expr.fused_of_apart e apart, iff.1 same, Expr.fused_of_apart e' apart']

/-- A prefix operation. -/
def prefixNode (operator : String) (operand : Json) : Node where
  fields := [("nodeType", .string "UnaryOperation"), ("operator", .string operator),
    ("prefix", .bool true), ("subExpression", operand)]
  nodeType := "UnaryOperation"
  typed := rfl

/-- A name. -/
def nameJson (name : String) : Json :=
  .object [("name", .string name), ("nodeType", .string "Identifier")]

/-- Prefix operators in front of a name. -/
def signedName (signs : List Sign) : Expr :=
  .operand (.mk signs (.name ⟨"x", by decide⟩) none)

/-- The number minus minus `x`. -/
def twiceNegated : Node := prefixNode "-" (prefixNode "-" (nameJson "x")).toJson

/-- What `x` is after one was taken from it. -/
def decremented : Node := prefixNode "--" (nameJson "x")

/-- The number minus `x`. -/
def negated : Node := prefixNode "-" (nameJson "x")

theorem twiceNegated_at : (signedName [.negate, .negate]).At twiceNegated :=
  ⟨rfl, rfl, rfl, _, rfl, rfl, rfl, rfl, _, rfl, rfl, rfl⟩

theorem decremented_at : (signedName [.decrement]).At decremented :=
  ⟨rfl, rfl, rfl, _, rfl, rfl, rfl⟩

theorem negated_at : (signedName [.negate]).At negated := ⟨rfl, rfl, rfl, _, rfl, rfl, rfl⟩

/-- Printing does lose something. -/
theorem not_always_injective :
    ¬ ∀ (w : Writer) (e e' : Expr) (n n' : Node), e.At n → e'.At n' →
      w.expression n = w.expression n' → e = e' := by
  intro injective
  have same : ({ } : Writer).expression twiceNegated = ({ } : Writer).expression decremented := by
    decide +kernel
  have equal := injective { } _ _ _ _ twiceNegated_at decremented_at same
  simp [signedName] at equal

/-- Two expressions with the same text, and two in which nothing can be lost. -/
theorem expression_eq_iff_decremented :
    (signedName [.negate, .negate]).At twiceNegated ∧ (signedName [.decrement]).At decremented
      ∧ ({ } : Writer).expression twiceNegated = ({ } : Writer).expression decremented
      ∧ (signedName [.negate, .negate]).fused = (signedName [.decrement]).fused
      ∧ (signedName [.negate]).At negated
      ∧ (signedName [.negate]).Apart ∧ (signedName [.decrement]).Apart
      ∧ ({ } : Writer).expression negated ≠ ({ } : Writer).expression decremented := by
  have apart (sign : Sign) : (signedName [sign]).Apart := ⟨.singleton _, trivial⟩
  have fused : (signedName [.negate, .negate]).fused = (signedName [.decrement]).fused := rfl
  have other : signedName [.negate] ≠ signedName [.decrement] := by simp [signedName]
  exact ⟨twiceNegated_at, decremented_at,
    (expression_eq_iff { } { } twiceNegated_at decremented_at).1.2 fused, fused, negated_at,
    apart _, apart _, fun same =>
      other ((expression_eq_iff { } { } negated_at decremented_at).2 (apart _) (apart _) same)⟩

end FuzzBundle.Solidity.Parenthesized
