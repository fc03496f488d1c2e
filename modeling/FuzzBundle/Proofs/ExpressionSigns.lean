/-
  FuzzBundle.Proofs.ExpressionSigns — runs of prefix operators.

  Prefix operators are written without blanks between them, and two minus signs next to each other
  are read as a decrement. `fuse` says what a run is read as, `Expr.fused` what a tree is read as,
  and both have the same characters as before (`Expr.text_fused`). Where no minus stands right in
  front of a minus or a decrement, nothing is read differently (`Expr.fused_of_apart`).

  Main statements: `readSigns_signsText`, `Expr.text_fused`, `Expr.fused_of_apart`.
-/
import Mathlib.Data.List.Chain
import FuzzBundle.Proofs.ExpressionTrees

namespace FuzzBundle.Solidity.Parenthesized

/-! ## §1. Runs of prefix operators -/

/-- Prefix operators as they are read when one more minus stands in front. -/
def withMinus : List Sign → List Sign
  | .negate :: signs => .decrement :: signs
  | .decrement :: signs => .decrement :: withMinus signs
  | signs => .negate :: signs

/-- Prefix operators as they are read: two minus signs next to each other are one decrement. -/
def fuse : List Sign → List Sign
  | [] => []
  | .negate :: signs => withMinus (fuse signs)
  | sign :: signs => sign :: fuse signs

/-- Reads prefix operators as long as one begins, always the longest that fits. -/
def readSigns : List Char → List Sign × List Char
  | '-' :: '-' :: cs => (readSigns cs).map (.decrement :: ·) id
  | '-' :: cs => (readSigns cs).map (.negate :: ·) id
  | '+' :: '+' :: cs => (readSigns cs).map (.increment :: ·) id
  | '!' :: cs => (readSigns cs).map (.not :: ·) id
  | '~' :: cs => (readSigns cs).map (.complement :: ·) id
  | 'd' :: 'e' :: 'l' :: 'e' :: 't' :: 'e' :: ' ' :: cs => (readSigns cs).map (.delete :: ·) id
  | cs => ([], cs)

theorem signsText_cons (sign : Sign) (signs : List Sign) :
    signsText (sign :: signs) = sign.text ++ signsText signs := List.flatMap_cons

theorem signsText_withMinus (signs : List Sign) :
    signsText (withMinus signs) = '-' :: signsText signs := by
  fun_induction withMinus signs with
  | case1 signs => rfl
  | case2 signs ih => rw [signsText_cons, signsText_cons, ih]; rfl
  | case3 signs => rfl

/-- Reading prefix operators anew changes no character. -/
theorem signsText_fuse (signs : List Sign) : signsText (fuse signs) = signsText signs := by
  fun_induction fuse signs with
  | case1 => rfl
  | case2 signs ih => rw [signsText_withMinus, ih, signsText_cons]; rfl
  | case3 sign signs _ ih => rw [signsText_cons, signsText_cons, ih]

/-- A minus in front is read as part of the run. -/
theorem readSigns_minus (cs : List Char) :
    readSigns ('-' :: cs) = (readSigns cs).map withMinus id := by
  have other (cs : List Char) (h : cs.head? ≠ some '-') :
      readSigns ('-' :: cs) = (readSigns cs).map (.negate :: ·) id := by
    rw [readSigns]
    rintro cs rfl
    exact h rfl
  fun_induction readSigns cs with
  | case1 cs ih => rw [readSigns, ih]; rfl
  | case2 cs _ ih => rw [readSigns]; rfl
  | case7 cs _ minus _ _ _ _ =>
    have nothing : readSigns cs = ([], cs) := by rw [readSigns] <;> assumption
    have start : cs.head? ≠ some '-' := by
      intro h
      obtain ⟨c, cs, rfl⟩ := List.exists_cons_of_ne_nil (List.ne_nil_of_mem (List.mem_of_head? h))
      obtain rfl : c = '-' := by simpa using h
      exact minus cs rfl
    rw [other cs start, nothing]
    rfl
  | _ => rw [other _ (by simp), readSigns]; rfl

/-- No prefix operator begins here. -/
def Unsigned (cs : List Char) : Prop := readSigns cs = ([], cs)

/-- **What a run of prefix operators is read as**, in front of something that is none. -/
theorem readSigns_signsText (signs : List Sign) {cs : List Char} (h : Unsigned cs) :
    readSigns (signsText signs ++ cs) = (fuse signs, cs) := by
  induction signs with
  | nil => exact h
  | cons sign signs ih =>
    rw [signsText_cons, List.append_assoc]
    cases sign with
    | negate =>
      rw [Sign.text, List.cons_append, List.nil_append, readSigns_minus, ih]
      rfl
    | not | complement | increment | decrement | delete =>
      simp only [Sign.text, List.cons_append, List.nil_append]
      rw [readSigns, ih]
      rfl

/-! ## §2. Trees as they are read -/

mutual

/-- A tree with every run of prefix operators as it is read. -/
def Primary.fused : Primary → Primary
  | .name x => .name x
  | .number value unit => .number value unit
  | .member base field => .member base.fused field
  | .index base place => .index base.fused place.fused
  | .whole base => .whole base.fused
  | .call callee arguments => .call callee.fused (eachFused arguments)
  | .array components => .array (eachFused components)
  | .nothing => .nothing
  | .parens inner => .parens inner.fused
  | .tuple first second more => .tuple first.fused second.fused (eachComponentFused more)

def Operand.fused : Operand → Operand
  | .mk signs core after => .mk (fuse signs) core.fused after

def Expr.fused : Expr → Expr
  | .operand o => .operand o.fused
  | .binary left operator right => .binary left.fused operator right.fused
  | .assign left operator right => .assign left.fused operator right.fused
  | .conditional condition yes no => .conditional condition.fused yes.fused no.fused

def Component.fused : Component → Component
  | .missing => .missing
  | .given e => .given e.fused

def eachFused : List Expr → List Expr
  | [] => []
  | e :: es => e.fused :: eachFused es

def eachComponentFused : List Component → List Component
  | [] => []
  | c :: cs => c.fused :: eachComponentFused cs

end

/-- No minus stands right in front of a minus or a decrement. -/
def SignsApart (signs : List Sign) : Prop :=
  signs.IsChain fun outer inner => ¬(outer = .negate ∧ (inner = .negate ∨ inner = .decrement))

mutual

/-- All runs of prefix operators in a tree have their minus signs apart. -/
def Primary.Apart : Primary → Prop
  | .name _ | .number _ _ | .nothing => True
  | .member base _ | .whole base => base.Apart
  | .index base place => base.Apart ∧ place.Apart
  | .call callee arguments => callee.Apart ∧ AllApart arguments
  | .array components => AllApart components
  | .parens inner => inner.Apart
  | .tuple first second more => first.Apart ∧ second.Apart ∧ AllComponentsApart more

def Operand.Apart : Operand → Prop
  | .mk signs core _ => SignsApart signs ∧ core.Apart

def Expr.Apart : Expr → Prop
  | .operand o => o.Apart
  | .binary left _ right | .assign left _ right => left.Apart ∧ right.Apart
  | .conditional condition yes no => condition.Apart ∧ yes.Apart ∧ no.Apart

def Component.Apart : Component → Prop
  | .missing => True
  | .given e => e.Apart

def AllApart : List Expr → Prop
  | [] => True
  | e :: es => e.Apart ∧ AllApart es

def AllComponentsApart : List Component → Prop
  | [] => True
  | c :: cs => c.Apart ∧ AllComponentsApart cs

end

theorem fuse_of_signsApart {signs : List Sign} (h : SignsApart signs) : fuse signs = signs := by
  unfold SignsApart at h
  fun_induction fuse signs with
  | case1 => rfl
  | case2 signs ih =>
    rw [ih h.of_cons]
    rcases signs with _ | ⟨next, signs⟩
    · rfl
    · have apart := (List.isChain_cons_cons.1 h).1
      have notNegate : next ≠ .negate := fun same => apart ⟨rfl, .inl same⟩
      have notDecrement : next ≠ .decrement := fun same => apart ⟨rfl, .inr same⟩
      rw [withMinus]
      · rintro _ ⟨⟩
        exact notNegate rfl
      · rintro _ ⟨⟩
        exact notDecrement rfl
  | case3 sign signs _ ih => rw [ih h.of_cons]

mutual

/-- A tree whose minus signs are apart is read as it is. -/
theorem Primary.fused_of_apart : (p : Primary) → p.Apart → p.fused = p
  | .name _, _ | .number _ _, _ | .nothing, _ => by rw [Primary.fused]
  | .member base field, h => by
    rw [Primary.Apart] at h
    rw [Primary.fused, Primary.fused_of_apart base h]
  | .whole base, h => by
    rw [Primary.Apart] at h
    rw [Primary.fused, Primary.fused_of_apart base h]
  | .index base place, h => by
    rw [Primary.Apart] at h
    rw [Primary.fused, Primary.fused_of_apart base h.1, Expr.fused_of_apart place h.2]
  | .call callee arguments, h => by
    rw [Primary.Apart] at h
    rw [Primary.fused, Primary.fused_of_apart callee h.1, eachFused_of_apart arguments h.2]
  | .array components, h => by
    rw [Primary.Apart] at h
    rw [Primary.fused, eachFused_of_apart components h]
  | .parens inner, h => by
    rw [Primary.Apart] at h
    rw [Primary.fused, Expr.fused_of_apart inner h]
  | .tuple first second more, h => by
    rw [Primary.Apart] at h
    rw [Primary.fused, Component.fused_of_apart first h.1, Component.fused_of_apart second h.2.1,
      eachComponentFused_of_apart more h.2.2]

theorem Operand.fused_of_apart : (o : Operand) → o.Apart → o.fused = o
  | .mk signs core after, h => by
    rw [Operand.Apart] at h
    rw [Operand.fused, fuse_of_signsApart h.1, Primary.fused_of_apart core h.2]

theorem Expr.fused_of_apart : (e : Expr) → e.Apart → e.fused = e
  | .operand o, h => by
    rw [Expr.Apart] at h
    rw [Expr.fused, Operand.fused_of_apart o h]
  | .binary left _ right, h => by
    rw [Expr.Apart] at h
    rw [Expr.fused, Operand.fused_of_apart left h.1, Operand.fused_of_apart right h.2]
  | .assign left _ right, h => by
    rw [Expr.Apart] at h
    rw [Expr.fused, Operand.fused_of_apart left h.1, Operand.fused_of_apart right h.2]
  | .conditional condition yes no, h => by
    rw [Expr.Apart] at h
    rw [Expr.fused, Operand.fused_of_apart condition h.1, Operand.fused_of_apart yes h.2.1,
      Operand.fused_of_apart no h.2.2]

theorem Component.fused_of_apart : (c : Component) → c.Apart → c.fused = c
  | .missing, _ => by rw [Component.fused]
  | .given e, h => by
    rw [Component.Apart] at h
    rw [Component.fused, Expr.fused_of_apart e h]

theorem eachFused_of_apart : (es : List Expr) → AllApart es → eachFused es = es
  | [], _ => by rw [eachFused]
  | e :: es, h => by
    rw [AllApart] at h
    rw [eachFused, Expr.fused_of_apart e h.1, eachFused_of_apart es h.2]

theorem eachComponentFused_of_apart : (cs : List Component) → AllComponentsApart cs →
    eachComponentFused cs = cs
  | [], _ => by rw [eachComponentFused]
  | c :: cs, h => by
    rw [AllComponentsApart] at h
    rw [eachComponentFused, Component.fused_of_apart c h.1, eachComponentFused_of_apart cs h.2]

end

mutual

/-- Reading a tree anew changes no character of its text. -/
theorem Primary.text_fused : (p : Primary) → p.fused.text = p.text
  | .name _ | .number _ _ | .nothing => by rw [Primary.fused]
  | .member base _ | .whole base => by
    rw [Primary.fused, Primary.text, Primary.text, Primary.text_fused base]
  | .index base place => by
    rw [Primary.fused, Primary.text, Primary.text, Primary.text_fused base, Expr.text_fused place]
  | .call callee arguments => by
    rw [Primary.fused, Primary.text, Primary.text, Primary.text_fused callee,
      eachText_eachFused arguments]
  | .array components => by
    rw [Primary.fused, Primary.text, Primary.text, eachText_eachFused components]
  | .parens inner => by rw [Primary.fused, Primary.text, Primary.text, Expr.text_fused inner]
  | .tuple first second more => by
    rw [Primary.fused, Primary.text, Primary.text, Component.text_fused first,
      Component.text_fused second, eachComponentText_fused more]

theorem Operand.text_fused : (o : Operand) → o.fused.text = o.text
  | .mk signs core none => by
    rw [Operand.fused, Operand.text, Operand.text, signsText_fuse, Primary.text_fused core]
  | .mk signs core (some _) => by
    rw [Operand.fused, Operand.text, Operand.text, signsText_fuse, Primary.text_fused core]

theorem Expr.text_fused : (e : Expr) → e.fused.text = e.text
  | .operand o => by rw [Expr.fused, Expr.text, Expr.text, Operand.text_fused o]
  | .binary left _ right | .assign left _ right => by
    rw [Expr.fused, Expr.text, Expr.text, Operand.text_fused left, Operand.text_fused right]
  | .conditional condition yes no => by
    rw [Expr.fused, Expr.text, Expr.text, Operand.text_fused condition, Operand.text_fused yes,
      Operand.text_fused no]

theorem Component.text_fused : (c : Component) → c.fused.text = c.text
  | .missing => by rw [Component.fused]
  | .given e => by rw [Component.fused, Component.text, Component.text, Expr.text_fused e]

theorem eachText_eachFused : (es : List Expr) → eachText (eachFused es) = eachText es
  | [] => by rw [eachFused]
  | e :: es => by rw [eachFused, eachText, eachText, Expr.text_fused e, eachText_eachFused es]

theorem eachComponentText_fused : (cs : List Component) →
    eachComponentText (eachComponentFused cs) = eachComponentText cs
  | [] => by rw [eachComponentFused]
  | c :: cs => by
    rw [eachComponentFused, eachComponentText, eachComponentText, Component.text_fused c,
      eachComponentText_fused cs]

end

end FuzzBundle.Solidity.Parenthesized
