/-
  FuzzBundle.Proofs.Extraction — what an extraction finds, said without its state.

  The extraction carries a counter and a list through files, contracts, functions and nodes. Here
  every node is given a meaning of its own: it declares at most one `Mark`, and the mark depends on
  that node alone (`markOf?`, whose five rules are `Declares`). A whole output then declares the
  list `marksOf` of its marks, and only the number of an unnamed bug asks where in this list the
  mark stands (`numbered`).

  The invariant of a run is `Extraction.extend`: a state reached after some marks is the state
  before them with their numbered invariants appended and their unnamed bugs counted. Each visitor
  keeps it (`visit_eq`, `visitFunction_eq`, `visitContract_eq_ok`, `visitFile_eq_ok`).

  Main statement: `ofOutput_eq_numbered`.
-/
import Mathlib.Data.List.Infix
import FuzzBundle.Invariant

namespace FuzzBundle

/-! ## §1. Marks -/

/-- What a node or the name of a function declares. An unnamed bug has no name of its own. -/
inductive Mark where
  | unnamedBug
  | echidna (name : String)
  | typedBug (name : String)
  | scribble (name : String)
  deriving DecidableEq, Repr

namespace Mark

/-- The bug without a name that has a number. -/
def bugNumbered (k : Nat) : Invariant := ⟨"Unnamed Bug " ++ toString k, .bug⟩

/-- The invariant that a mark stands for after `k` unnamed bugs. -/
def invariant (k : Nat) : Mark → Invariant
  | .unnamedBug => bugNumbered k
  | .echidna name => ⟨name, .echidna⟩
  | .typedBug name => ⟨name, .typedBug⟩
  | .scribble name => ⟨name, .scribble⟩

end Mark

/-- The invariants of some marks. The number of an unnamed bug is the number of those that stand
before it, the `k` from outside the list included. -/
def numberedFrom (k : Nat) (marks : List Mark) : List Invariant :=
  marks.mapIdx fun i mark => mark.invariant (k + (marks.take i).count .unnamedBug)

/-- The invariants of all marks of a run. -/
def numbered (marks : List Mark) : List Invariant := numberedFrom 0 marks

theorem numberedFrom_cons (k : Nat) (mark : Mark) (marks : List Mark) :
    numberedFrom k (mark :: marks)
      = mark.invariant k :: numberedFrom (k + [mark].count .unnamedBug) marks := by
  unfold numberedFrom
  rw [List.mapIdx_cons]
  congr 1
  apply List.ext_getElem?
  intro i
  simp only [List.getElem?_mapIdx, List.take_succ_cons, List.count_cons, List.count_nil]
  congr 1
  funext m
  congr 1
  omega

theorem numberedFrom_append (k : Nat) (xs ys : List Mark) :
    numberedFrom k (xs ++ ys)
      = numberedFrom k xs ++ numberedFrom (k + xs.count .unnamedBug) ys := by
  induction xs generalizing k with
  | nil => simp [numberedFrom]
  | cons mark xs ih =>
    rw [List.cons_append, numberedFrom_cons, numberedFrom_cons, ih, List.cons_append]
    congr 3
    rw [List.count_cons, List.count_cons, List.count_nil]
    omega

/-- The unnamed bugs of a list of marks are numbered one after the other. -/
theorem filter_bug_numberedFrom (k : Nat) (marks : List Mark) :
    (numberedFrom k marks).filter (·.kind = .bug)
      = (List.range' k (marks.count .unnamedBug)).map Mark.bugNumbered := by
  induction marks generalizing k with
  | nil => rfl
  | cons mark marks ih =>
    rw [numberedFrom_cons, List.filter_cons, ih]
    cases mark <;> simp [Mark.invariant, Mark.bugNumbered, List.range'_succ]

/-! ## §2. The mark of a node -/

/-- What is called, when it is a member of some object. -/
def memberCallee? (call : Node) : Option Node :=
  (call.child? "expression").bind fun callee =>
    if callee.kind = .memberAccess then some callee else none

/-- The event that a statement emits, with the call that holds its arguments. -/
def emitted? (emit : Node) : Option (Node × Node) :=
  (emit.child? "eventCall").bind fun call => (call.child? "expression").map (call, ·)

/-- Whether a name holds the word that instrumentation puts into its names. -/
def Scribbled (name : String) : Prop := "Scribble".toList <:+: name.toList

instance (name : String) : Decidable (Scribbled name) :=
  inferInstanceAs (Decidable (_ <:+: _))

/-- The rules by which a node declares something. -/
inductive Declares (n : Node) : Mark → Prop where
  | bug {callee : Node} : n.kind = .functionCall → memberCallee? n = some callee →
      Invariant.baseName callee = "FuzzLand" → callee.string "memberName" = "bug" →
      Declares n .unnamedBug
  | typedBug {callee : Node} : n.kind = .functionCall → memberCallee? n = some callee →
      Invariant.baseName callee = "FuzzLand" → callee.string "memberName" = "typed_bug" →
      Declares n (.typedBug (Invariant.joinedArguments n callee))
  | scribbleCall {callee : Node} : n.kind = .functionCall → memberCallee? n = some callee →
      Scribbled (Invariant.baseName callee) → callee.string "memberName" = "assertionFailed" →
      Declares n (.scribble (Invariant.joinedArguments n callee))
  | assertion {call event : Node} : n.kind = .emitStatement → emitted? n = some (call, event) →
      event.kind = .identifier → event.name = "AssertionFailed" →
      Declares n (.typedBug (Invariant.joinedArguments call event))
  | scribbleEvent {call event : Node} : n.kind = .emitStatement →
      emitted? n = some (call, event) → event.kind = .memberAccess →
      event.string "memberName" = "AssertionFailed" → Scribbled (Invariant.baseName event) →
      Declares n (.scribble (Invariant.joinedArguments call event))

/-- The mark of a call of a member. -/
def markOfCall? (call callee : Node) : Option Mark :=
  match callee.string "memberName" with
  | "bug" => if Invariant.baseName callee = "FuzzLand" then some .unnamedBug else none
  | "typed_bug" =>
    if Invariant.baseName callee = "FuzzLand" then
      some (.typedBug (Invariant.joinedArguments call callee))
    else none
  | "assertionFailed" =>
    if Scribbled (Invariant.baseName callee) then
      some (.scribble (Invariant.joinedArguments call callee))
    else none
  | _ => none

/-- The mark of an emitted event. -/
def markOfEvent? (call event : Node) : Option Mark :=
  match event.kind with
  | .identifier =>
    if event.name = "AssertionFailed" then
      some (.typedBug (Invariant.joinedArguments call event))
    else none
  | .memberAccess =>
    if event.string "memberName" = "AssertionFailed" ∧ Scribbled (Invariant.baseName event) then
      some (.scribble (Invariant.joinedArguments call event))
    else none
  | _ => none

/-- The mark of a node, if it declares anything. -/
def markOf? (n : Node) : Option Mark :=
  match n.kind with
  | .functionCall => (memberCallee? n).bind (markOfCall? n)
  | .emitStatement => (emitted? n).bind fun event => markOfEvent? event.1 event.2
  | _ => none

theorem contains_iff {part cs : List Char} : Invariant.contains part cs = true ↔ part <:+: cs := by
  induction cs with
  | nil => simp [Invariant.contains]
  | cons c cs ih =>
    rw [Invariant.contains, Bool.or_eq_true, Text.isSome_dropStart?, ih, List.infix_cons_iff]

theorem isInstrumented_iff {name : String} :
    Invariant.isInstrumented name = true ↔ Scribbled name := contains_iff

/-- The harness is not instrumented, so that no call is found twice. -/
theorem not_scribbled_harness : ¬ Scribbled "FuzzLand" := by decide

/-- **A node declares what its mark says**, and so at most one thing. -/
theorem markOf?_eq_some_iff (n : Node) (mark : Mark) :
    markOf? n = some mark ↔ Declares n mark := by
  constructor
  · -- one branch of `markOf?` for each rule; every other branch has no mark
    intro h
    unfold markOf? at h
    split at h
    · next kind =>
      obtain ⟨callee, found, h⟩ := Option.bind_eq_some_iff.1 h
      unfold markOfCall? at h
      split at h
      · next member =>
        split at h <;> cases h
        next base => exact .bug kind found base member
      · next member =>
        split at h <;> cases h
        next base => exact .typedBug kind found base member
      · next member =>
        split at h <;> cases h
        next base => exact .scribbleCall kind found base member
      · cases h
    · next kind =>
      obtain ⟨⟨call, event⟩, found, h⟩ := Option.bind_eq_some_iff.1 h
      unfold markOfEvent? at h
      split at h
      · next eventKind =>
        split at h <;> cases h
        next name => exact .assertion kind found eventKind name
      · next eventKind =>
        split at h <;> cases h
        next member => exact .scribbleEvent kind found eventKind member.1 member.2
      · cases h
    · cases h
  · intro h
    cases h with
    | bug kind found base member => simp [markOf?, kind, found, markOfCall?, base, member]
    | typedBug kind found base member => simp [markOf?, kind, found, markOfCall?, base, member]
    | scribbleCall kind found base member => simp [markOf?, kind, found, markOfCall?, base, member]
    | assertion kind found eventKind name =>
      simp [markOf?, kind, found, markOfEvent?, eventKind, name]
    | scribbleEvent kind found eventKind member base =>
      simp [markOf?, kind, found, markOfEvent?, eventKind, member, base]

/-! ## §3. The marks of an output -/

/-- The marks of a function: one for its name, and those of its nodes in visiting order. -/
def marksOfFunction (function : Node) : List Mark :=
  (if "echidna_".toList <+: function.name.toList then [.echidna function.name] else [])
    ++ function.walk.filterMap markOf?

/-- Whether a contract is looked at: the harness and the libraries of instrumentation are not. -/
def Examined (contract : Node) : Prop :=
  contract.name ≠ "FuzzLand" ∧ ¬ "__ScribbleUtilsLib".toList <+: contract.name.toList

instance (contract : Node) : Decidable (Examined contract) :=
  inferInstanceAs (Decidable (_ ∧ _))

/-- The marks of a contract, function by function. -/
def marksOfContract (contract : Node) : List Mark :=
  if Examined contract then (contract.membersOf .functionDefinition).flatMap marksOfFunction else []

/-- The marks of a source file, contract by contract. -/
def marksOfFile (source : SourceOutput) : List Mark :=
  match source.tree?.bind Node.ofJson? with
  | some unit => (unit.membersOf .contractDefinition).flatMap marksOfContract
  | none => []

/-- The marks of an output, file by file in the order of their names. -/
def marksOf (output : CompilerOutput) : List Mark :=
  output.sources.toList.flatMap fun entry => marksOfFile entry.2

/-! ## §4. One step of an extraction -/

namespace Extraction

/-- The state after some more marks. -/
def extend (e : Extraction) (marks : List Mark) : Extraction :=
  ⟨e.unnamedBugs + marks.count .unnamedBug, e.found ++ numberedFrom e.unnamedBugs marks⟩

theorem extend_nil (e : Extraction) : e.extend [] = e := by
  simp [extend, numberedFrom]

theorem extend_append (e : Extraction) (xs ys : List Mark) :
    e.extend (xs ++ ys) = (e.extend xs).extend ys := by
  simp only [extend, numberedFrom_append, List.count_append, List.append_assoc, Nat.add_assoc]

theorem pushUnnamed_eq (e : Extraction) : e.pushUnnamed = e.extend [.unnamedBug] := rfl

theorem push_echidna_eq (e : Extraction) (name : String) :
    e.push name .echidna = e.extend [.echidna name] := rfl

theorem push_typedBug_eq (e : Extraction) (name : String) :
    e.push name .typedBug = e.extend [.typedBug name] := rfl

theorem push_scribble_eq (e : Extraction) (name : String) :
    e.push name .scribble = e.extend [.scribble name] := rfl

/-- A call extends the state by its mark. The two looks at it never both find something: an
instrumented object is not the harness. -/
theorem inspectCall_eq (e : Extraction) (call : Node) :
    e.inspectCall call = e.extend ((memberCallee? call).bind (markOfCall? call)).toList := by
  unfold inspectCall memberCallee?
  cases hc : call.child? "expression" with
  | none => simp [extend_nil]
  | some callee =>
    by_cases kind : callee.kind = .memberAccess
    · simp only [kind, Option.bind_some, if_true, ne_eq, not_true_eq_false, if_false,
        isInstrumented_iff]
      -- both looks read the name of the member, so this is what the cases are split by
      generalize hm : markOfCall? call callee = mark
      unfold markOfCall? at hm
      split at hm
      · next member =>
        by_cases base : Invariant.baseName callee = "FuzzLand"
        · simp [← hm, base, Invariant.harness, inspectHarnessCall, member, pushUnnamed_eq]
        · simp [← hm, base, Invariant.harness, member, extend_nil]
      · next member =>
        by_cases base : Invariant.baseName callee = "FuzzLand"
        · simp [← hm, base, Invariant.harness, inspectHarnessCall, member, push_typedBug_eq]
        · simp [← hm, base, Invariant.harness, member, extend_nil]
      · next member =>
        by_cases base : Scribbled (Invariant.baseName callee)
        · have other : Invariant.baseName callee ≠ "FuzzLand" :=
            fun h => not_scribbled_harness (h ▸ base)
          simp [← hm, base, other, Invariant.harness, member, push_scribble_eq]
        · simp [← hm, base, inspectHarnessCall, member, extend_nil]
      · next notBug notTyped notFailed =>
        have other : callee.string "memberName" ≠ "assertionFailed" := notFailed
        simp only [← hm, inspectHarnessCall, if_neg notBug, if_neg notTyped, other, and_false,
          if_false, ite_self, Option.toList_none, extend_nil]
    · simp [kind, extend_nil]

/-- An emitted event extends the state by its mark. -/
theorem inspectEmit_eq (e : Extraction) (emit : Node) :
    e.inspectEmit emit
      = e.extend ((emitted? emit).bind fun event => markOfEvent? event.1 event.2).toList := by
  unfold inspectEmit emitted?
  cases hc : emit.child? "eventCall" with
  | none => simp [extend_nil]
  | some call =>
    cases he : call.child? "expression" with
    | none => simp [he, extend_nil]
    | some event =>
      simp only [he, Option.bind_some, Option.map_some, isInstrumented_iff]
      generalize hm : markOfEvent? call event = mark
      unfold markOfEvent? at hm
      split at hm
      · next kind =>
        by_cases name : event.name = "AssertionFailed"
        · simp [← hm, kind, name, push_typedBug_eq]
        · simp [← hm, kind, name, extend_nil]
      · next kind =>
        have named : event.string? "memberName" = some "AssertionFailed"
            ↔ event.string "memberName" = "AssertionFailed" := by
          unfold Node.string
          cases event.string? "memberName" <;> simp
        by_cases member : event.string "memberName" = "AssertionFailed"
        · by_cases base : Scribbled (Invariant.baseName event)
          · simp [← hm, kind, named, member, base, push_scribble_eq]
          · simp [← hm, kind, named, member, base, extend_nil]
        · simp [← hm, kind, named, member, extend_nil]
      · next notIdentifier notMember =>
        rw [if_neg fun h => notIdentifier h.1, if_neg fun h => notMember h.1, ← hm]
        exact (extend_nil e).symm

/-- **A visit extends the state by the mark of the node.** -/
theorem visit_eq (e : Extraction) (n : Node) : e.visit n = e.extend (markOf? n).toList := by
  unfold visit
  split
  · next kind => rw [inspectCall_eq]; simp only [markOf?, kind]
  · next kind => rw [inspectEmit_eq]; simp only [markOf?, kind]
  · next notCall notEmit =>
    have none : markOf? n = none := by
      unfold markOf?
      split
      · next kind => exact absurd kind notCall
      · next kind => exact absurd kind notEmit
      · rfl
    rw [none]
    exact (extend_nil e).symm

/-! ## §5. Runs -/

/-- Steps that extend the state by marks, one after the other. -/
theorem foldl_eq_extend {α : Type} {step : Extraction → α → Extraction} {marks : α → List Mark}
    (hstep : ∀ e a, step e a = e.extend (marks a)) (as : List α) (e : Extraction) :
    as.foldl step e = e.extend (as.flatMap marks) := by
  induction as generalizing e with
  | nil => exact (extend_nil e).symm
  | cons a as ih => rw [List.foldl_cons, hstep, ih, List.flatMap_cons, extend_append]

/-- The same for steps that may fail, as far as none of them does. -/
theorem foldlM_eq_extend {α : Type} {step : Extraction → α → Except TreeError Extraction}
    {marks : α → List Mark}
    (hstep : ∀ e a e', step e a = .ok e' → e' = e.extend (marks a)) {as : List α}
    {e e' : Extraction} (h : as.foldlM step e = .ok e') : e' = e.extend (as.flatMap marks) := by
  induction as generalizing e with
  | nil =>
    cases h
    exact (extend_nil _).symm
  | cons a as ih =>
    rw [List.foldlM_cons] at h
    -- a step that fails ends the run, which then is none of those meant here
    cases hs : step e a with
    | error err => rw [hs] at h; cases h
    | ok mid =>
      rw [hs] at h
      have rest : e' = mid.extend (as.flatMap marks) := ih h
      rw [rest, hstep e a mid hs, List.flatMap_cons, extend_append]

/-- **A function extends the state by its marks.** -/
theorem visitFunction_eq (e : Extraction) (function : Node) :
    e.visitFunction function = e.extend (marksOfFunction function) := by
  have walk : function.walk.filterMap markOf? = function.walk.flatMap fun n => (markOf? n).toList :=
    List.filterMap_eq_flatMap_toList _ _
  unfold visitFunction marksOfFunction
  -- the name comes before the walk, in the state as in the list of marks
  rw [foldl_eq_extend visit_eq, walk]
  by_cases name : "echidna_".toList <+: function.name.toList
  · rw [if_pos (Text.startsWith_iff.2 name), if_pos name, push_echidna_eq, extend_append]
  · rw [if_neg fun h => name (Text.startsWith_iff.1 h), if_neg name, List.nil_append]

theorem isAuxiliary_iff (contract : Node) :
    Invariant.isAuxiliary contract.name = true ↔ ¬ Examined contract := by
  rw [Invariant.isAuxiliary, Bool.or_eq_true, beq_iff_eq, Text.startsWith_iff, Examined,
    not_and_or, not_not, not_not]
  rfl

/-- A contract that has a name extends the state by its marks. -/
theorem visitContract_eq_ok {file : String} {e e' : Extraction} {contract : Node}
    (h : e.visitContract file contract = .ok e') : e' = e.extend (marksOfContract contract) := by
  unfold visitContract at h
  unfold marksOfContract
  split at h
  · cases h
  · split at h
    · next auxiliary =>
      cases h
      rw [if_neg ((isAuxiliary_iff contract).1 auxiliary), extend_nil]
    · next examined =>
      cases h
      have examined : Examined contract := by
        by_contra hn
        exact examined ((isAuxiliary_iff contract).2 hn)
      rw [if_pos examined, foldl_eq_extend visitFunction_eq]

/-- A file that can be used extends the state by its marks. -/
theorem visitFile_eq_ok {e e' : Extraction} {entry : String × SourceOutput}
    (h : e.visitFile entry = .ok e') : e' = e.extend (marksOfFile entry.2) := by
  unfold visitFile at h
  split at h
  · cases h
  · next tree htree =>
    split at h
    · cases h
    · next unit hunit =>
      rw [marksOfFile, htree, Option.bind_some, hunit]
      exact foldlM_eq_extend (fun _ _ _ hc => visitContract_eq_ok hc) h

end Extraction

/-! ## §6. The findings of an output -/

/-- **The findings of an extraction are the numbered marks of the output.** Every mark is decided by
one node or one name, and the unnamed bugs have the numbers from zero on, none left out and none
given twice. -/
theorem ofOutput_eq_numbered (output : CompilerOutput) (found : List Invariant)
    (h : Invariant.ofOutput output = .ok found) :
    found = numbered (marksOf output)
      ∧ (∀ n mark, markOf? n = some mark ↔ Declares n mark)
      ∧ found.filter (·.kind = .bug)
          = (List.range ((marksOf output).count .unnamedBug)).map Mark.bugNumbered := by
  have run : found = numbered (marksOf output) := by
    unfold Invariant.ofOutput at h
    cases he : output.sources.toList.foldlM Extraction.visitFile {} with
    | error err => rw [he] at h; cases h
    | ok e =>
      rw [he] at h
      cases h
      -- the run starts without findings and with no bug counted
      rw [Extraction.foldlM_eq_extend (fun _ _ _ hf => Extraction.visitFile_eq_ok hf) he]
      rfl
  refine ⟨run, markOf?_eq_some_iff, ?_⟩
  rw [run, numbered, filter_bug_numberedFrom, List.range_eq_range']

/-- A source file with one contract, whose only function calls a member of the harness. -/
def callingFile (contract function member : String) : SourceOutput where
  id? := none
  tree? := some (.object [("nodeType", .string "SourceUnit"), ("nodes", .array [.object [
    ("name", .string contract), ("nodeType", .string "ContractDefinition"),
    ("nodes", .array [.object [
      ("body", .object [("nodeType", .string "Block"), ("statements", .array [.object [
        ("expression", .object [
          ("expression", .object [
            ("name", .string "FuzzLand"), ("nodeType", .string "Identifier")]),
          ("memberName", .string member), ("nodeType", .string "MemberAccess")]),
        ("nodeType", .string "FunctionCall")]])]),
      ("name", .string function), ("nodeType", .string "FunctionDefinition")]])]])])
  legacyTree? := none
  source? := none

/-- A bug without a name in each of two files. -/
def twoBugs : CompilerOutput where
  errors := []
  sources := ⟨[("a.sol", callingFile "Pool" "echidna_f" "bug"),
    ("b.sol", callingFile "Router" "swap" "bug")], by decide⟩
  contracts := Dict.empty

/-- The count goes on from the first file to the second. -/
theorem ofOutput_twoBugs :
    Invariant.ofOutput twoBugs
        = .ok [⟨"echidna_f", .echidna⟩, ⟨"Unnamed Bug 0", .bug⟩, ⟨"Unnamed Bug 1", .bug⟩]
      ∧ [⟨"echidna_f", .echidna⟩, ⟨"Unnamed Bug 0", .bug⟩, ⟨"Unnamed Bug 1", .bug⟩]
        = numbered (marksOf twoBugs) := by
  have found : Invariant.ofOutput twoBugs
      = .ok [⟨"echidna_f", .echidna⟩, ⟨"Unnamed Bug 0", .bug⟩, ⟨"Unnamed Bug 1", .bug⟩] := by
    decide +kernel
  exact ⟨found, (ofOutput_eq_numbered twoBugs _ found).1⟩

end FuzzBundle
