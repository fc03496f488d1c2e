/-
  FuzzBundle.Proofs.AssemblyReading — printed assembly can be read back.

  `readStatement` reads one statement off the front of a list of tokens and gives what is left. The
  grammar needs one token of foresight: what may follow a statement (`StatementEnds`) is told from
  what may continue it by its first token. A reader gets fuel, and the size of a tree is enough to
  read it. Reading what was printed gives the tree (`readStatement_tokens`), hence two trees with
  the same text are the same tree.

  Main statements: `readExpression_tokens`, `readStatement_tokens`, `print_injective`.
-/
import FuzzBundle.Proofs.AssemblyTrees
import FuzzBundle.Proofs.ListReading

namespace FuzzBundle.Solidity.Assembly

/-! ## §1. Readers -/

def readName : Reader Token Name
  | .word w :: ts => if h : IsName w then some (⟨w, h⟩, ts) else none
  | _ => none

def readLiteral : Reader Token Literal
  | .quoted written :: ts => (Quoted.unescape written).map fun cs => (.text (.ofList cs), ts)
  | .word w :: ts =>
    if w = "true" then some (.bool true, ts)
    else if w = "false" then some (.bool false, ts)
    else if h : isNumeral w.toList = true then some (.number ⟨w, h⟩, ts)
    else none
  | _ => none

/-- What stands between the items of a list. -/
abbrev comma : List Token := [.mark ',']

def readExpression : Nat → Reader Token Expression
  | 0, _ => none
  | fuel + 1, ts =>
    match readLiteral ts with
    | some (l, ts) => some (.literal l, ts)
    | none =>
      match readName ts with
      | some (x, .mark '(' :: ts) =>
        (readEnclosed comma (.mark ')') (readExpression fuel) fuel ts).map fun (arguments, ts) =>
          (.call x arguments, ts)
      | some (x, ts) => some (.name x, ts)
      | none => none

/-- Reads items as long as one begins, up to and with a closing brace. -/
def readBody {α : Type} (read : Reader Token α) : Nat → Reader Token (List α)
  | 0, _ => none
  | _ + 1, .mark '\x7d' :: ts => some ([], ts)
  | fuel + 1, ts =>
    (read ts).bind fun (a, ts) => (readBody read fuel ts).map fun (more, ts) => (a :: more, ts)

/-- Reads a body in braces. -/
def readBlock {α : Type} (read : Reader Token α) (fuel : Nat) : Reader Token (List α)
  | .mark '\x7b' :: ts => readBody read fuel ts
  | _ => none

/-- Reads the arms of a switch, as long as one begins. -/
def readArms (readBlock : Reader Token (List Statement)) : Nat → Reader Token (List Arm)
  | 0, _ => none
  | fuel + 1, .word "case" :: ts =>
    (readLiteral ts).bind fun (value, ts) =>
      (readBlock ts).bind fun (body, ts) =>
        (readArms readBlock fuel ts).map fun (more, ts) => (.case value body :: more, ts)
  | fuel + 1, .word "default" :: ts =>
    (readBlock ts).bind fun (body, ts) =>
      (readArms readBlock fuel ts).map fun (more, ts) => (.default body :: more, ts)
  | _ + 1, ts => some ([], ts)

/-- Reads the names that a function returns, none if there is no arrow. -/
def readReturns (fuel : Nat) : Reader Token (List Name)
  | .mark '-' :: .mark '>' :: ts =>
    (readListed comma readName fuel ts).map fun ((x, more), ts) => (x :: more, ts)
  | ts => some ([], ts)

def readStatement : Nat → Reader Token Statement
  | 0, _ => none
  | fuel + 1, .mark '\x7b' :: ts =>
    (readBody (readStatement fuel) fuel ts).map fun (body, ts) => (.block body, ts)
  | fuel + 1, .word "let" :: ts =>
    match readListed comma readName fuel ts with
    | some ((x, more), .mark ':' :: .mark '=' :: ts) =>
      (readExpression fuel ts).map fun (value, ts) => (.declare x more (some value), ts)
    | some ((x, more), ts) => some (.declare x more none, ts)
    | none => none
  | fuel + 1, .word "if" :: ts =>
    (readExpression fuel ts).bind fun (condition, ts) =>
      (readBlock (readStatement fuel) fuel ts).map fun (body, ts) => (.cond condition body, ts)
  | fuel + 1, .word "switch" :: ts =>
    (readExpression fuel ts).bind fun (on, ts) =>
      (readArms (readBlock (readStatement fuel) fuel) fuel ts).map fun (arms, ts) =>
        (.switch on arms, ts)
  | fuel + 1, .word "for" :: ts =>
    (readBlock (readStatement fuel) fuel ts).bind fun (pre, ts) =>
      (readExpression fuel ts).bind fun (condition, ts) =>
        (readBlock (readStatement fuel) fuel ts).bind fun (post, ts) =>
          (readBlock (readStatement fuel) fuel ts).map fun (body, ts) =>
            (.loop pre condition post body, ts)
  | fuel + 1, .word "function" :: ts =>
    match readName ts with
    | some (function, .mark '(' :: ts) =>
      (readEnclosed comma (.mark ')') readName fuel ts).bind fun (parameters, ts) =>
        (readReturns fuel ts).bind fun (returns, ts) =>
          (readBlock (readStatement fuel) fuel ts).map fun (body, ts) =>
            (.define function parameters returns body, ts)
    | _ => none
  | _ + 1, .word "break" :: ts => some (.breakLoop, ts)
  | _ + 1, .word "continue" :: ts => some (.continueLoop, ts)
  | _ + 1, .word "leave" :: ts => some (.leave, ts)
  | fuel + 1, ts =>
    -- what is left begins with a name: names that get a value, or a function that is called
    match readListed comma readName fuel ts with
    | some ((x, more), .mark ':' :: .mark '=' :: ts) =>
      (readExpression fuel ts).map fun (value, ts) => (.assign x more value, ts)
    | some ((x, _), .mark '(' :: ts) =>
      (readEnclosed comma (.mark ')') (readExpression fuel) fuel ts).map
        fun (arguments, ts) => (.run x arguments, ts)
    | _ => none

/-! ## §2. Names, literals and lists -/

theorem readName_token (x : Name) (rest : List Token) :
    readName (x.token :: rest) = some (x, rest) := by
  rw [Name.token, readName, dif_pos x.property]

/-- A name is no literal. -/
theorem readLiteral_name (x : Name) (rest : List Token) : readLiteral (x.token :: rest) = none := by
  obtain ⟨-, noDigit, free⟩ := x.property
  have notTrue : x.val ≠ "true" := fun h => free (h ▸ by decide)
  have notFalse : x.val ≠ "false" := fun h => free (h ▸ by decide)
  have notNumeral : ¬isNumeral x.val.toList = true := by
    intro numeral
    have digit := (isNumeral_word numeral).2
    cases first : x.val.toList.head? with
    | none => simp [first] at digit
    | some c => simp_all
  rw [Name.token, readLiteral, if_neg notTrue, if_neg notFalse, dif_neg notNumeral]

theorem readLiteral_token (l : Literal) (rest : List Token) :
    readLiteral (l.token :: rest) = some (l, rest) := by
  cases l with
  | number value =>
    have digit := (isNumeral_word value.property).2
    have notTrue : value.val ≠ "true" := by
      intro h
      rw [h] at digit
      exact absurd digit (by decide)
    have notFalse : value.val ≠ "false" := by
      intro h
      rw [h] at digit
      exact absurd digit (by decide)
    rw [Literal.token, readLiteral, if_neg notTrue, if_neg notFalse, dif_pos value.property]
  | bool value => cases value <;> rfl
  | text value =>
    rw [Literal.token, readLiteral, Quoted.unescape_escape, Option.map_some, String.ofList_toList]

/-- What follows an expression does not make it a call. -/
def ExpressionEnds (ts : List Token) : Prop := ts.head? ≠ some (.mark '(')

/-- What follows a list goes on with no comma. -/
def ListEnds (ts : List Token) : Prop := ts.head? ≠ some (.mark ',')

theorem ListEnds.dropPrefix? {ts : List Token} (h : ListEnds ts) : ts.dropPrefix? comma = none := by
  cases ts with
  | nil => rfl
  | cons t ts =>
    have other : t ≠ .mark ',' := fun same => h (same ▸ rfl)
    simp [List.dropPrefix?, other]

theorem readNames_tokens {fuel : Nat} (x : Name) (more : List Name) (enough : more.length < fuel)
    {rest : List Token} (ends : ListEnds rest) :
    readListed comma readName fuel (nameTokens (x :: more) ++ rest) = some ((x, more), rest) := by
  have list := readListed_intercalate comma (fun x => [Name.token x]) id (fun _ => True)
    (fun _ => trivial) fuel x more (fun y _ ts _ => readName_token y ts) enough trivial
    ends.dropPrefix?
  rwa [List.map_id] at list

theorem readParameters_tokens {fuel : Nat} {parameters : List Name}
    (enough : parameters.length ≤ fuel) (rest : List Token) :
    readEnclosed comma (.mark ')') readName fuel (nameTokens parameters ++ .mark ')' :: rest)
      = some (parameters, rest) := by
  have list := readEnclosed_intercalate comma (.mark ')') (fun x => [Name.token x]) id
    (fun _ => True) (fun _ => trivial) (fun _ => trivial) (fun _ => rfl) fuel parameters
    (fun x _ => ⟨x.token, [], rfl, nofun⟩) (fun y _ ts _ => readName_token y ts) enough rest
  rwa [List.map_id] at list

/-! ## §3. Expressions -/

theorem eachExpressionTokens_eq (es : List Expression) :
    eachExpressionTokens es = es.map Expression.tokens := by
  induction es with
  | nil => rfl
  | cons e es ih => rw [eachExpressionTokens, ih, List.map_cons]

/-- The tokens of an expression begin with a name or a literal, no mark. -/
theorem Expression.tokens_eq_cons (e : Expression) :
    ∃ t ts, e.tokens = t :: ts ∧ ∀ c, t ≠ .mark c := by
  cases e with
  | name x => exact ⟨_, [], rfl, fun _ => nofun⟩
  | literal l => cases l <;> exact ⟨_, [], rfl, fun _ => nofun⟩
  | call function arguments => exact ⟨_, _, rfl, fun _ => nofun⟩

/-- Reading the arguments of a call, when smaller expressions are read. -/
theorem readArguments_tokens {read : Reader Token Expression} {fuel : Nat}
    (each : ∀ e : Expression, sizeOf e ≤ fuel → ∀ rest, ExpressionEnds rest →
      read (e.tokens ++ rest) = some (e, rest))
    {arguments : List Expression} (size : sizeOf arguments ≤ fuel) (rest : List Token) :
    readEnclosed comma (.mark ')') read fuel
        (comma.intercalate (eachExpressionTokens arguments) ++ .mark ')' :: rest)
      = some (arguments, rest) := by
  rw [eachExpressionTokens_eq]
  have list := readEnclosed_intercalate comma (.mark ')') Expression.tokens id ExpressionEnds
    (fun _ => by simp [ExpressionEnds]) (fun _ => by simp [ExpressionEnds]) (fun _ => rfl) fuel
    arguments
    (fun e _ => by
      obtain ⟨t, ts, first, noMark⟩ := e.tokens_eq_cons
      exact ⟨t, ts, first, noMark ')'⟩)
    (fun e he => each e (by have := List.sizeOf_lt_of_mem he; omega))
    (Nat.le_of_lt (Nat.lt_of_lt_of_le (length_lt_sizeOf arguments) size)) rest
  rwa [List.map_id] at list

/-- **Reading the tokens of an expression gives the expression**, with fuel for its size and where
no parenthesis follows. By induction on the fuel, with all smaller expressions at hand. -/
theorem readExpression_tokens {fuel : Nat} {e : Expression} (enough : sizeOf e ≤ fuel)
    {rest : List Token} (ends : ExpressionEnds rest) :
    readExpression fuel (e.tokens ++ rest) = some (e, rest) := by
  induction fuel generalizing e rest with
  | zero => cases e <;> simp at enough
  | succ fuel ih =>
    cases e with
    | name x =>
      rw [Expression.tokens, List.singleton_append, readExpression, readLiteral_name,
        readName_token]
      simp only
      split
      · next h => cases h; exact absurd rfl ends
      · next h => cases h; rfl
      · next h => cases h
    | literal l =>
      rw [Expression.tokens, List.singleton_append, readExpression, readLiteral_token]
    | call function arguments =>
      rw [Expression.call.sizeOf_spec] at enough
      have list := readArguments_tokens (fun e size _ ends => ih size ends)
        (show sizeOf arguments ≤ fuel by omega) rest
      rw [Expression.tokens, List.cons_append, readExpression, readLiteral_name, List.cons_append,
        readName_token, List.append_assoc, List.singleton_append]
      simp only [list, Option.map_some]

/-! ## §4. Statements -/

/-- Tokens with which a statement may go on, or a list in it, or the arms of a switch. -/
def continuations : List Token :=
  [.mark '(', .mark ',', .mark ':', .word "case", .word "default"]

/-- Tokens other than names with which a statement begins. -/
def openings : List Token :=
  [.mark '\x7b', .word "let", .word "if", .word "switch", .word "for", .word "function",
    .word "break", .word "continue", .word "leave"]

/-- What follows a statement does not go on with it. -/
def StatementEnds (ts : List Token) : Prop := ∀ t ∈ continuations, ts.head? ≠ some t

theorem StatementEnds.expression {ts : List Token} (h : StatementEnds ts) : ExpressionEnds ts :=
  h _ (by simp [continuations])

theorem StatementEnds.list {ts : List Token} (h : StatementEnds ts) : ListEnds ts :=
  h _ (by simp [continuations])

theorem statementEnds_cons {t : Token} (h : t ∉ continuations) (ts : List Token) :
    StatementEnds (t :: ts) := by
  intro u hu same
  obtain rfl : t = u := by simpa using same
  exact h hu

/-- A name is none of the reserved words. -/
theorem Name.token_ne (x : Name) {w : String} (h : w ∈ reserved) : x.token ≠ .word w := by
  intro same
  exact x.property.2.2 (Token.word.inj same ▸ h)

theorem Name.token_not_mem_continuations (x : Name) : x.token ∉ continuations := by
  have noCase := x.token_ne (w := "case") (by decide)
  have noDefault := x.token_ne (w := "default") (by decide)
  simp only [continuations, List.mem_cons, List.not_mem_nil, or_false, not_or]
  exact ⟨nofun, nofun, nofun, noCase, noDefault⟩

theorem Statement.tokens_eq_cons (s : Statement) :
    ∃ t ts, s.tokens = t :: ts ∧ (t ∈ openings ∨ ∃ x : Name, t = x.token) := by
  cases s with
  | declare x more value => cases value <;> exact ⟨_, _, rfl, .inl (by simp [openings])⟩
  | assign x more value =>
    obtain ⟨ts, first⟩ := intercalate_eq_append comma [x.token] (more.map fun y => [y.token])
      (.mark ':' :: .mark '=' :: value.tokens)
    exact ⟨x.token, ts, first, .inr ⟨x, rfl⟩⟩
  | run function arguments => exact ⟨_, _, rfl, .inr ⟨function, rfl⟩⟩
  | _ => exact ⟨_, _, rfl, .inl (by simp [openings])⟩

/-- A statement does not go on with the one before it. -/
theorem Statement.ends (s : Statement) (ts : List Token) : StatementEnds (s.tokens ++ ts) := by
  have apart : ∀ t ∈ openings, t ∉ continuations := by decide
  obtain ⟨t, us, spelled, opening | ⟨x, rfl⟩⟩ := s.tokens_eq_cons
  · rw [spelled]
    exact statementEnds_cons (apart t opening) _
  · rw [spelled]
    exact statementEnds_cons x.token_not_mem_continuations _

theorem Statement.head?_tokens (s : Statement) (ts : List Token) :
    (s.tokens ++ ts).head? ≠ some (.mark '\x7d') := by
  obtain ⟨t, us, spelled, opening | ⟨x, rfl⟩⟩ := s.tokens_eq_cons
  · rw [spelled]
    intro same
    obtain rfl : t = .mark '\x7d' := by simpa using same
    exact absurd opening (by decide)
  · simp [spelled, Name.token]

/-- Reading statements up to the closing brace, when each of them is read. -/
theorem readBody_tokens {read : Reader Token Statement} (fuel : Nat) {body : List Statement}
    (each : ∀ s ∈ body, ∀ rest, StatementEnds rest → read (s.tokens ++ rest) = some (s, rest))
    (enough : body.length < fuel) (rest : List Token) :
    readBody read fuel (statementTokens body ++ .mark '\x7d' :: rest) = some (body, rest) := by
  induction body generalizing fuel with
  | nil =>
    obtain ⟨fuel, rfl⟩ : ∃ k, fuel = k + 1 := ⟨fuel - 1, by omega⟩
    rfl
  | cons s body ih =>
    obtain ⟨fuel, rfl⟩ : ∃ k, fuel = k + 1 := ⟨fuel - 1, by omega⟩
    have tail := ih fuel (fun s hs => each s (List.mem_cons_of_mem _ hs))
      (by rw [List.length_cons] at enough; omega)
    have ends : StatementEnds (statementTokens body ++ .mark '\x7d' :: rest) := by
      cases body with
      | nil => exact statementEnds_cons (by decide) _
      | cons next body =>
        rw [statementTokens, List.append_assoc]
        exact next.ends _
    rw [statementTokens, List.append_assoc, readBody, each s List.mem_cons_self _ ends,
      Option.bind_some]
    · simp only [tail, Option.map_some]
    · intro ts h
      exact s.head?_tokens _ (congrArg List.head? h)

/-- A list of statements up to some size is read in braces. -/
def ReadsBlocks (bound : Nat) (read : Reader Token (List Statement)) : Prop :=
  ∀ body : List Statement, sizeOf body ≤ bound → ∀ rest,
    read (inBraces (statementTokens body) ++ rest) = some (body, rest)

theorem readsBlocks {read : Reader Token Statement} {fuel : Nat}
    (each : ∀ s : Statement, sizeOf s ≤ fuel → ∀ rest, StatementEnds rest →
      read (s.tokens ++ rest) = some (s, rest)) : ReadsBlocks fuel (readBlock read fuel) := by
  intro body size rest
  rw [inBraces, List.cons_append, List.append_assoc, readBlock, List.singleton_append]
  refine readBody_tokens fuel (fun s hs => each s ?_) ?_ rest
  · have := List.sizeOf_lt_of_mem hs
    omega
  · exact Nat.lt_of_lt_of_le (length_lt_sizeOf body) size

/-- Reading the arms of a switch, where no further arm follows. -/
theorem readArms_tokens {readBlock : Reader Token (List Statement)} {bound : Nat}
    (blocks : ReadsBlocks bound readBlock) (fuel : Nat) (arms : List Arm)
    (size : sizeOf arms ≤ bound) (enough : arms.length < fuel) {rest : List Token}
    (ends : StatementEnds rest) :
    readArms readBlock fuel (armTokens arms ++ rest) = some (arms, rest) := by
  induction arms generalizing fuel with
  | nil =>
    obtain ⟨fuel, rfl⟩ : ∃ k, fuel = k + 1 := ⟨fuel - 1, by omega⟩
    rw [armTokens, List.nil_append, readArms]
    · rintro ts rfl
      exact ends (.word "case") (by decide) rfl
    · rintro ts rfl
      exact ends (.word "default") (by decide) rfl
  | cons arm arms ih =>
    obtain ⟨fuel, rfl⟩ : ∃ k, fuel = k + 1 := ⟨fuel - 1, by omega⟩
    rw [List.cons.sizeOf_spec] at size
    have tail := ih fuel (by omega) (by rw [List.length_cons] at enough; omega)
    cases arm with
    | case value body =>
      rw [Arm.case.sizeOf_spec] at size
      rw [armTokens, Arm.tokens, List.append_assoc, List.cons_append, List.cons_append, readArms,
        readLiteral_token, Option.bind_some]
      simp only [blocks body (by omega), Option.bind_some, tail, Option.map_some]
    | default body =>
      rw [Arm.default.sizeOf_spec] at size
      rw [armTokens, Arm.tokens, List.append_assoc, List.cons_append, readArms]
      simp only [blocks body (by omega), Option.bind_some, tail, Option.map_some]

theorem readReturns_tokens {returns : List Name} {fuel : Nat} (enough : returns.length ≤ fuel)
    (body rest : List Token) :
    readReturns fuel ((if returns = [] then [] else .mark '-' :: .mark '>' :: nameTokens returns)
        ++ inBraces body ++ rest) = some (returns, inBraces body ++ rest) := by
  cases returns with
  | nil => rfl
  | cons x more =>
    have names := readNames_tokens x more enough
      (show ListEnds (inBraces body ++ rest) by simp [ListEnds, inBraces])
    rw [if_neg (List.cons_ne_nil x more), List.cons_append, List.cons_append, List.cons_append,
      List.cons_append, List.append_assoc, readReturns, names]
    rfl

/-- A statement that begins with a name is read as one of the two that can. -/
theorem readStatement_name (fuel : Nat) (x : Name) (ts : List Token) :
    readStatement (fuel + 1) (x.token :: ts) =
      match readListed comma readName fuel (x.token :: ts) with
      | some ((x, more), .mark ':' :: .mark '=' :: ts) =>
        (readExpression fuel ts).map fun (value, ts) => (.assign x more value, ts)
      | some ((x, _), .mark '(' :: ts) =>
        (readEnclosed comma (.mark ')') (readExpression fuel) fuel ts).map fun (arguments, ts) =>
          (.run x arguments, ts)
      | _ => none := by
  rw [readStatement]
  · rintro us ⟨⟩
  all_goals
    intro us same
    exact x.token_ne (by decide) (List.cons.inj same).1

/-! The statements without others inside, each where nothing goes on with it. -/

theorem readStatement_declare {fuel : Nat} {x : Name} {more : List Name} {value : Option Expression}
    (enough : sizeOf (Statement.declare x more value) ≤ fuel + 1) {rest : List Token}
    (ends : StatementEnds rest) :
    readStatement (fuel + 1) ((Statement.declare x more value).tokens ++ rest)
      = some (.declare x more value, rest) := by
  rw [Statement.declare.sizeOf_spec] at enough
  have length := length_lt_sizeOf more
  cases value with
  | none =>
    rw [Statement.tokens, List.cons_append, readStatement,
      readNames_tokens x more (by omega) ends.list]
    -- a colon would begin a value
    split
    · next h => cases h; exact absurd rfl (ends (.mark ':') (by decide))
    · next h => cases h; rfl
    · next h => cases h
  | some value =>
    rw [Option.some.sizeOf_spec] at enough
    have expression := readExpression_tokens (show sizeOf value ≤ fuel by omega) ends.expression
    rw [Statement.tokens, List.cons_append, readStatement, List.append_assoc,
      readNames_tokens x more (by omega) (by simp [ListEnds])]
    simp only [List.cons_append, expression, Option.map_some]

theorem readStatement_assign {fuel : Nat} {x : Name} {more : List Name} {value : Expression}
    (enough : sizeOf (Statement.assign x more value) ≤ fuel + 1) {rest : List Token}
    (ends : StatementEnds rest) :
    readStatement (fuel + 1) ((Statement.assign x more value).tokens ++ rest)
      = some (.assign x more value, rest) := by
  rw [Statement.assign.sizeOf_spec] at enough
  have length := length_lt_sizeOf more
  have expression := readExpression_tokens (show sizeOf value ≤ fuel by omega) ends.expression
  have listEnds : ListEnds (.mark ':' :: .mark '=' :: (value.tokens ++ rest)) := by
    simp [ListEnds]
  have names := readNames_tokens x more (show more.length < fuel by omega) listEnds
  obtain ⟨ts, first⟩ := intercalate_eq_append comma [x.token] (more.map fun y => [y.token])
    (.mark ':' :: .mark '=' :: (value.tokens ++ rest))
  rw [nameTokens, List.map_cons, first, List.singleton_append] at names
  rw [Statement.tokens, nameTokens, List.map_cons, List.append_assoc, List.cons_append,
    List.cons_append, first, List.singleton_append, readStatement_name, names]
  simp only [expression, Option.map_some]

theorem readStatement_run {fuel : Nat} {function : Name} {arguments : List Expression}
    (enough : sizeOf (Statement.run function arguments) ≤ fuel + 1) (rest : List Token) :
    readStatement (fuel + 1) ((Statement.run function arguments).tokens ++ rest)
      = some (.run function arguments, rest) := by
  rw [Statement.run.sizeOf_spec] at enough
  have length := length_lt_sizeOf arguments
  have list := readArguments_tokens (fun _ size _ ends => readExpression_tokens size ends)
    (show sizeOf arguments ≤ fuel by omega) rest
  have opening : ListEnds (.mark '(' :: (comma.intercalate
      (eachExpressionTokens arguments) ++ .mark ')' :: rest)) := by
    simp [ListEnds]
  have name := readNames_tokens function [] (show 0 < fuel by omega) opening
  rw [nameTokens, List.map_singleton, List.intercalate_singleton, List.singleton_append] at name
  rw [Statement.tokens, Expression.tokens, List.cons_append, List.cons_append,
    List.append_assoc, List.singleton_append, readStatement_name, name]
  simp only [list, Option.map_some]

/-- **Reading the tokens of a statement gives the statement**, with fuel for its size. By induction
on the fuel, which gives the statements of inner blocks. -/
theorem readStatement_tokens {fuel : Nat} {s : Statement} (enough : sizeOf s ≤ fuel)
    {rest : List Token} (ends : StatementEnds rest) :
    readStatement fuel (s.tokens ++ rest) = some (s, rest) := by
  induction fuel generalizing s rest with
  | zero => cases s <;> simp at enough
  | succ fuel ih =>
    have blocks : ReadsBlocks fuel (readBlock (readStatement fuel) fuel) :=
      readsBlocks fun s size rest ends => ih size ends
    have expression {e : Expression} (size : sizeOf e ≤ fuel) {rest : List Token}
        (ends : ExpressionEnds rest) : readExpression fuel (e.tokens ++ rest) = some (e, rest) :=
      readExpression_tokens size ends
    have brace (ts us : List Token) : ExpressionEnds (inBraces ts ++ us) := by
      simp [ExpressionEnds, inBraces]
    cases s with
    | block body =>
      rw [Statement.block.sizeOf_spec] at enough
      have inner := blocks body (by omega) rest
      rw [inBraces, List.cons_append, readBlock] at inner
      rw [Statement.tokens, inBraces, List.cons_append, readStatement, inner]
      rfl
    | declare x more value => exact readStatement_declare enough ends
    | assign x more value => exact readStatement_assign enough ends
    | run function arguments => exact readStatement_run enough rest
    | cond condition body =>
      rw [Statement.cond.sizeOf_spec] at enough
      rw [Statement.tokens, List.cons_append, readStatement, List.append_assoc,
        expression (by omega) (brace _ _)]
      simp only [Option.bind_some, blocks body (by omega), Option.map_some]
    | switch on arms =>
      rw [Statement.switch.sizeOf_spec] at enough
      have length := length_lt_sizeOf arms
      have after : ExpressionEnds (armTokens arms ++ rest) := by
        rcases arms with _ | ⟨⟨value, body⟩ | ⟨body⟩, arms⟩
        · exact ends.expression
        all_goals simp [ExpressionEnds, armTokens, Arm.tokens]
      have list := readArms_tokens blocks fuel arms (by omega) (by omega) ends
      rw [Statement.tokens, List.cons_append, readStatement, List.append_assoc,
        expression (by omega) after, Option.bind_some]
      simp only [list, Option.map_some]
    | loop pre condition post body =>
      rw [Statement.loop.sizeOf_spec] at enough
      rw [Statement.tokens, List.cons_append, readStatement]
      simp only [List.append_assoc, blocks pre (by omega), Option.bind_some,
        expression (e := condition) (by omega) (brace _ _), blocks post (by omega),
        blocks body (by omega), Option.map_some]
    | define function parameters returns body =>
      rw [Statement.define.sizeOf_spec] at enough
      have length := length_lt_sizeOf parameters
      have length' := length_lt_sizeOf returns
      rw [Statement.tokens, List.cons_append, readStatement, List.cons_append, readName_token,
        List.cons_append]
      simp only [List.append_assoc, List.cons_append]
      rw [readParameters_tokens (by omega), Option.bind_some, ← List.append_assoc,
        readReturns_tokens (by omega), Option.bind_some, blocks body (by omega)]
      rfl
    | breakLoop => rfl
    | continueLoop => rfl
    | leave => rfl

/-! ## §5. Two trees with one text -/

/-- **Printing loses nothing**: statements of assembly, blocks among them, whose nodes have the same
text are the same statement. -/
theorem print_injective {s s' : Statement} {n n' : Node} (h : s.At n) (h' : s'.At n')
    (same : print n = print n') : s = s' := by
  have tokens : s.tokens = s'.tokens := by
    have read := (Statement.At.lexesAs s n h).tokens?
    rw [same, (Statement.At.lexesAs s' n' h').tokens?] at read
    exact (Option.some.inj read).symm
  have nothing : StatementEnds [] := by simp [StatementEnds]
  have read := readStatement_tokens (Nat.le_max_left (sizeOf s) (sizeOf s')) nothing
  rw [tokens, readStatement_tokens (Nat.le_max_right (sizeOf s) (sizeOf s')) nothing] at read
  exact (Prod.mk.inj (Option.some.inj read)).1.symm

/-- A block that ends the run with a text when a number is zero, at some place of a file. -/
def guardNode (place : String) : Node where
  fields := [
    ("nodeType", .string "YulBlock"),
    ("src", .string place),
    ("statements", .array [.object [
      ("body", .object [
        ("nodeType", .string "YulBlock"),
        ("statements", .array [.object [
          ("expression", .object [
            ("arguments", .array [.object [
              ("kind", .string "string"), ("nodeType", .string "YulLiteral"),
              ("value", .string "none\n")]]),
            ("functionName", .object [
              ("name", .string "fail"), ("nodeType", .string "YulIdentifier")]),
            ("nodeType", .string "YulFunctionCall")]),
          ("nodeType", .string "YulExpressionStatement")]])]),
      ("condition", .object [
        ("arguments", .array [.object [
          ("name", .string "left"), ("nodeType", .string "YulIdentifier")]]),
        ("functionName", .object [
          ("name", .string "iszero"), ("nodeType", .string "YulIdentifier")]),
        ("nodeType", .string "YulFunctionCall")]),
      ("nodeType", .string "YulIf")]])]
  nodeType := "YulBlock"
  typed := rfl

/-- The tree of that block. -/
def guardTree : Statement :=
  .block [.cond (.call ⟨"iszero", by decide⟩ [.name ⟨"left", by decide⟩])
    [.run ⟨"fail", by decide⟩ [.literal (.text "none\n")]]]

theorem guardTree_at (place : String) : guardTree.At (guardNode place) := by
  refine ⟨rfl, _, [], rfl, ⟨rfl, ⟨_, rfl, ?_⟩, ⟨_, rfl, rfl, ?_⟩⟩, rfl⟩
  · exact ⟨rfl, ⟨_, rfl, rfl, rfl⟩, _, [], rfl, ⟨rfl, rfl⟩, rfl⟩
  · refine ⟨_, [], rfl, ⟨rfl, _, rfl, ?_⟩, rfl⟩
    exact ⟨rfl, ⟨_, rfl, rfl, rfl⟩, _, [], rfl, ⟨rfl, rfl, rfl⟩, rfl⟩

/-- The same block as a later compiler writes it, with more fields. -/
def laterGuardNode (place : String) : Node where
  fields := [
    ("nativeSrc", .string place),
    ("nodeType", .string "YulBlock"),
    ("src", .string place),
    ("statements", .array [.object [
      ("body", .object [
        ("nativeSrc", .string place),
        ("nodeType", .string "YulBlock"),
        ("statements", .array [.object [
          ("expression", .object [
            ("arguments", .array [.object [
              ("hexValue", .string "6e6f6e650a"), ("kind", .string "string"),
              ("nodeType", .string "YulLiteral"), ("type", .string ""),
              ("value", .string "none\n")]]),
            ("functionName", .object [
              ("name", .string "fail"), ("nativeSrc", .string place),
              ("nodeType", .string "YulIdentifier")]),
            ("nodeType", .string "YulFunctionCall")]),
          ("nodeType", .string "YulExpressionStatement")]])]),
      ("condition", .object [
        ("arguments", .array [.object [
          ("name", .string "left"), ("nativeSrc", .string place),
          ("nodeType", .string "YulIdentifier")]]),
        ("functionName", .object [
          ("name", .string "iszero"), ("nodeType", .string "YulIdentifier")]),
        ("nodeType", .string "YulFunctionCall")]),
      ("nodeType", .string "YulIf")]])]
  nodeType := "YulBlock"
  typed := rfl

/-- A call that ends the run with a text. -/
def failWith (characters : List Char) : Statement :=
  .run ⟨"fail", by decide⟩ [.literal (.text (.ofList characters))]

/-- The tree of the later block, with its text given by the characters. -/
def laterGuardTree : Statement :=
  .block [.cond (.call ⟨"iszero", by decide⟩ [.name ⟨"left", by decide⟩])
    [failWith ['n', 'o', 'n', 'e', '\n']]]

theorem laterGuardTree_at (place : String) : laterGuardTree.At (laterGuardNode place) := by
  refine ⟨rfl, _, [], rfl, ⟨rfl, ⟨_, rfl, ?_⟩, ⟨_, rfl, rfl, ?_⟩⟩, rfl⟩
  · exact ⟨rfl, ⟨_, rfl, rfl, rfl⟩, _, [], rfl, ⟨rfl, rfl⟩, rfl⟩
  · refine ⟨_, [], rfl, ⟨rfl, _, rfl, ?_⟩, rfl⟩
    exact ⟨rfl, ⟨_, rfl, rfl, rfl⟩, _, [], rfl, ⟨rfl, rfl, rfl⟩, rfl⟩

/-- The two blocks have one text, and so their trees are one tree. -/
theorem print_injective_guard :
    print (guardNode "0:9:0") = print (laterGuardNode "40:9:0")
      ∧ guardTree = laterGuardTree := by
  have same : print (guardNode "0:9:0") = print (laterGuardNode "40:9:0") := by decide +kernel
  exact ⟨same, print_injective (guardTree_at "0:9:0") (laterGuardTree_at "40:9:0") same⟩

end FuzzBundle.Solidity.Assembly
