/-
  FuzzBundle.Proofs.PrimaryReading — names, numbers, brackets and suffixes are read back.

  A primary expression is an atom with suffixes, and reading takes the innermost first. What is
  inside parentheses and brackets is read by a reader of expressions that is right up to the size of
  the expression around it (`ReadsUpTo`).

  Main statements: `readEnclosed_text`, `readTuple_text`, `readPrimary_text`.
-/
import FuzzBundle.Proofs.ExpressionReader

namespace FuzzBundle.Solidity.Parenthesized

/-! ## §1. Lists -/

/-- All expressions up to some size are read, wherever an expression may end. -/
def ReadsUpTo (size : Nat) (read : Reader Char Expr) : Prop :=
  ∀ e : Expr, sizeOf e ≤ size → ∀ rest, ExprEnds rest → read (e.text ++ rest) = some (e.fused, rest)

theorem eachText_eq (es : List Expr) : eachText es = es.map Expr.text := by
  induction es with
  | nil => rfl
  | cons e es ih => rw [eachText, ih, List.map_cons]

theorem eachFused_eq (es : List Expr) : eachFused es = es.map Expr.fused := by
  induction es with
  | nil => rfl
  | cons e es ih => rw [eachFused, ih, List.map_cons]

theorem eachComponentText_eq (cs : List Component) :
    eachComponentText cs = cs.map Component.text := by
  induction cs with
  | nil => rfl
  | cons c cs ih => rw [eachComponentText, ih, List.map_cons]

theorem eachComponentFused_eq (cs : List Component) :
    eachComponentFused cs = cs.map Component.fused := by
  induction cs with
  | nil => rfl
  | cons c cs ih => rw [eachComponentFused, ih, List.map_cons]

theorem exprEnds_cons {c : Char} (h : c ∈ closings) (cs : List Char) : ExprEnds (c :: cs) := by
  intro d hd
  obtain rfl : c = d := by simpa using hd
  exact h

theorem dropPrefix?_comma {c : Char} (h : c ≠ ',') (cs : List Char) :
    (c :: cs).dropPrefix? comma = none := by
  simp [List.dropPrefix?, h]

/-- Expressions with commas between them are read, up to what closes the list. -/
theorem readEnclosed_text {read : Reader Char Expr} {size : Nat} (reads : ReadsUpTo size read)
    (close : Char) (hc : close ∈ closings) (noComma : close ≠ ',') {es : List Expr}
    (enough : sizeOf es ≤ size) (rest : List Char) :
    readEnclosed comma close read size (listText (eachText es) ++ close :: rest)
      = some (eachFused es, rest) := by
  rw [eachText_eq, eachFused_eq]
  refine readEnclosed_intercalate comma close Expr.text Expr.fused ExprEnds
    (fun _ => exprEnds_cons (by decide) _) (exprEnds_cons hc) (dropPrefix?_comma noComma) size es
    (fun e _ => ?_) (fun e he => reads e ?_) ?_ rest
  · obtain ⟨c, cs, spelled, apart⟩ := e.exists_cons
    exact ⟨c, cs, spelled, fun same => apart (same ▸ hc)⟩
  · have := List.sizeOf_lt_of_mem he
    omega
  · have := length_lt_sizeOf es
    omega

/-- A component ends here. -/
def ComponentEnds (cs : List Char) : Prop := cs.head? = some ',' ∨ cs.head? = some ')'

theorem readComponent_text {read : Reader Char Expr} {size : Nat} (reads : ReadsUpTo size read)
    (c : Component) (small : ∀ e, c = .given e → sizeOf e ≤ size) {rest : List Char}
    (ends : ComponentEnds rest) : readComponent read (c.text ++ rest) = some (c.fused, rest) := by
  cases c with
  | missing =>
    unfold ComponentEnds at ends
    rw [Component.text, List.nil_append, readComponent, if_pos ends, Component.fused]
  | given e =>
    have exprEnds : ExprEnds rest := by
      intro c hc
      rcases ends with h | h <;> (rw [h] at hc; cases hc; decide)
    obtain ⟨c, cs, spelled, apart⟩ := e.exists_cons
    have begins : ¬((e.text ++ rest).head? = some ',' ∨ (e.text ++ rest).head? = some ')') := by
      rw [spelled]
      rintro (h | h) <;> (cases h; exact apart (by decide))
    rw [Component.text, readComponent, if_neg begins, reads e (small e rfl) rest exprEnds,
      Component.fused]
    rfl

/-- The components of a tuple are read. -/
theorem readTuple_text {read : Reader Char Expr} {size : Nat} (reads : ReadsUpTo size read)
    (c : Component) (more : List Component)
    (small : ∀ e, Component.given e ∈ c :: more → sizeOf e ≤ size) (enough : more.length < size)
    (rest : List Char) :
    readAtom read size ('(' :: (listText (eachComponentText (c :: more)) ++ ')' :: rest))
      = some (inParentheses (c.fused, eachComponentFused more), rest) := by
  have list := readListed_intercalate comma Component.text Component.fused ComponentEnds
    (fun _ => .inl rfl) size c more
    (fun d hd _ => readComponent_text reads d fun e same => small e (same ▸ hd)) enough (.inr rfl)
    (dropPrefix?_comma (by decide) rest)
  rw [← eachComponentText_eq, ← eachComponentFused_eq] at list
  rw [readAtom, listText, list]
  rfl

/-! ## §2. Atoms and suffixes -/

/-- How many suffixes an expression ends in. -/
def Primary.suffixes : Primary → Nat
  | .member base _ | .index base _ | .whole base | .call base _ => base.suffixes + 1
  | .name _ | .number _ _ | .array _ | .nothing | .parens _ | .tuple _ _ _ => 0

theorem Primary.suffixes_le : (p : Primary) → p.suffixes ≤ sizeOf p
  | .member base _ | .index base _ | .whole base | .call base _ => by
    have := Primary.suffixes_le base
    rw [Primary.suffixes]
    simp only [member.sizeOf_spec, index.sizeOf_spec, whole.sizeOf_spec, call.sizeOf_spec]
    omega
  | .name _ | .number _ _ | .array _ | .nothing | .parens _ | .tuple _ _ _ => Nat.zero_le _

/-- No unit is read where none follows. -/
theorem readDenomination_none {rest : List Char} (ends : AtomEnds rest) :
    readDenomination rest = some (none, rest) := by
  unfold readDenomination
  split
  · next cs =>
    have nothing : cs.takeWhile isWordChar = [] := by
      cases cs with
      | nil => rfl
      | cons c cs => simp [show isWordChar c = false from ends.unit _ rfl]
    have none : readRun (· ∈ denominations) isWordChar cs = none :=
      readRun_eq_none (by rw [nothing]; decide)
    rw [none]
  · rfl

/-- The unit of a number is read. -/
theorem readDenomination_append (unit : Denomination) {rest : List Char} (ends : AtomEnds rest) :
    readDenomination (' ' :: (unit.val.toList ++ rest)) = some (some unit, rest) := by
  have word : unit.val.toList.all isWordChar = true := by
    have all : denominations.all (fun s => s.toList.all isWordChar) = true := by decide
    exact List.all_eq_true.1 all unit.val unit.property
  rw [readDenomination, readRun_append unit word ends.word]

theorem readAtom_name {read : Reader Char Expr} {size : Nat} (x : Name) {rest : List Char}
    (ends : AtomEnds rest) : readAtom read size (x.val.toList ++ rest) = some (.name x, rest) := by
  obtain ⟨c, cs, spelled, word, noDigit⟩ := x.property.1.exists_cons
  have run := readRun_append x x.property.1.1 ends.word
  have noPoint : c ≠ '.' := by
    rintro rfl
    exact absurd word (by decide)
  rw [spelled, List.cons_append] at run ⊢
  rw [readAtom_word (.inl word), readNumeral_eq_none noDigit noPoint, run]
  rfl

theorem readAtom_number {read : Reader Char Expr} {size : Nat} (value : Numeral)
    {unit : Option Denomination} {rest rest' : List Char}
    (ends : rest.head?.any isWordChar = false)
    (point : ∀ cs, rest = '.' :: cs → cs.head?.any Char.isDigit = false)
    (denomination : readDenomination rest = some (unit, rest')) :
    readAtom read size (value.text ++ rest) = some (.number value unit, rest') := by
  obtain ⟨c, cs, spelled, first⟩ := value.exists_cons
  have numeral := readNumeral_append value ends point
  have word : isWordChar c = true ∨ c = '.' :=
    first.imp_left fun digit => by simp [isWordChar, Char.isAlphanum, digit]
  rw [spelled, List.cons_append] at numeral ⊢
  rw [readAtom_word word, numeral]
  simp only [denomination, Option.map_some]

theorem readPrimary_of_atom {read : Reader Char Expr} {size : Nat} {cs rest : List Char}
    {p : Primary} (h : readAtom read size cs = some (p, rest)) (count : Nat) :
    readPrimary read size (0 + count) cs = readSuffixes read size count p rest := by
  rw [readPrimary, h, Nat.zero_add, Option.bind_some]

/-- **A primary expression is read** with all its suffixes, and then what follows decides. By
induction along the suffixes, innermost first, as they are read. -/
theorem readPrimary_text {read : Reader Char Expr} {size : Nat} (reads : ReadsUpTo size read) :
    (p : Primary) → sizeOf p ≤ size → ∀ (count : Nat) (rest : List Char), AtomEnds rest →
      readPrimary read size (p.suffixes + count) (p.text ++ rest)
        = readSuffixes read size count p.fused rest
  | .name x, _, count, rest, ends => by
    rw [Primary.text, Primary.fused, Primary.suffixes]
    exact readPrimary_of_atom (readAtom_name x ends) count
  | .number value none, _, count, rest, ends => by
    rw [Primary.text, Primary.fused, Primary.suffixes]
    exact readPrimary_of_atom
      (readAtom_number value ends.word ends.point (readDenomination_none ends)) count
  | .number value (some unit), _, count, rest, ends => by
    rw [Primary.text, Primary.fused, Primary.suffixes, List.append_assoc, List.cons_append]
    exact readPrimary_of_atom
      (readAtom_number value rfl (by rintro _ ⟨⟩) (readDenomination_append unit ends)) count
  | .member base field, enough, count, rest, ends => by
    rw [Primary.member.sizeOf_spec] at enough
    have inner := readPrimary_text reads base (by omega) (count + 1) _ (atomEnds_field field rest)
    rw [Primary.text, Primary.suffixes, Primary.fused, List.append_assoc, List.cons_append,
      Nat.add_assoc, Nat.add_comm 1, inner, readSuffixes,
      readRun_append field field.property.1 ends.word, Option.bind_some]
  | .index base place, enough, count, rest, _ => by
    rw [Primary.index.sizeOf_spec] at enough
    have inner := readPrimary_text reads base (by omega) (count + 1)
      ('[' :: (place.text ++ ']' :: rest)) (atomEnds_cons rfl (by decide) (by decide) _)
    obtain ⟨c, cs, spelled, apart⟩ := place.exists_cons
    have there := reads place (by omega) (']' :: rest) (exprEnds_cons (by decide) _)
    rw [Primary.text, Primary.suffixes, Primary.fused, List.append_assoc, List.cons_append,
      List.append_assoc, List.singleton_append, Nat.add_assoc, Nat.add_comm 1, inner, readSuffixes,
      there]
    · rfl
    · rw [spelled]
      rintro _ ⟨⟩
      exact apart (by decide)
  | .whole base, enough, count, rest, _ => by
    rw [Primary.whole.sizeOf_spec] at enough
    have inner := readPrimary_text reads base (by omega) (count + 1) ('[' :: ']' :: rest)
      (atomEnds_cons rfl (by decide) (by decide) _)
    rw [Primary.text, Primary.suffixes, Primary.fused, List.append_assoc, List.cons_append,
      List.cons_append, List.nil_append, Nat.add_assoc, Nat.add_comm 1, inner, readSuffixes]
  | .call callee arguments, enough, count, rest, _ => by
    rw [Primary.call.sizeOf_spec] at enough
    have inner := readPrimary_text reads callee (by omega) (count + 1)
      ('(' :: (listText (eachText arguments) ++ ')' :: rest))
      (atomEnds_cons rfl (by decide) (by decide) _)
    have list := readEnclosed_text reads ')' (by decide) (by decide)
      (show sizeOf arguments ≤ size by omega) rest
    rw [Primary.text, Primary.suffixes, Primary.fused, List.append_assoc, List.cons_append,
      List.append_assoc, List.singleton_append, Nat.add_assoc, Nat.add_comm 1, inner, readSuffixes,
      list, Option.bind_some]
  | .array components, enough, count, rest, _ => by
    rw [Primary.array.sizeOf_spec] at enough
    have list := readEnclosed_text reads ']' (by decide) (by decide)
      (show sizeOf components ≤ size by omega) rest
    rw [Primary.text, Primary.fused, Primary.suffixes, List.cons_append, List.append_assoc,
      List.singleton_append]
    refine readPrimary_of_atom ?_ count
    rw [readAtom, list]
    rfl
  | .nothing, enough, count, rest, _ => by
    rw [Primary.nothing.sizeOf_spec] at enough
    rw [Primary.text, Primary.fused, Primary.suffixes]
    exact readPrimary_of_atom (readTuple_text reads .missing [] (by simp) enough rest) count
  | .parens inner, enough, count, rest, _ => by
    rw [Primary.parens.sizeOf_spec] at enough
    rw [Primary.text, Primary.fused, Primary.suffixes, List.cons_append, List.append_assoc,
      List.singleton_append]
    have tuple := readTuple_text reads (.given inner) [] (by simp; omega)
      (show 0 < size by omega) rest
    simp only [eachComponentText, eachComponentFused, Component.text, Component.fused,
      inParentheses, listText, List.intercalate_singleton] at tuple
    exact readPrimary_of_atom tuple count
  | .tuple first second more, enough, count, rest, _ => by
    rw [Primary.tuple.sizeOf_spec] at enough
    have length := length_lt_sizeOf more
    have small : ∀ e, Component.given e ∈ first :: second :: more → sizeOf e ≤ size := by
      intro e he
      have inside := List.sizeOf_lt_of_mem he
      simp only [Component.given.sizeOf_spec, List.cons.sizeOf_spec] at inside
      omega
    have tuple := readTuple_text reads first (second :: more) small
      (by rw [List.length_cons]; omega) rest
    simp only [eachComponentText, eachComponentFused, inParentheses] at tuple
    rw [Primary.text, Primary.fused, Primary.suffixes, List.cons_append, List.append_assoc,
      List.singleton_append]
    exact readPrimary_of_atom tuple count

end FuzzBundle.Solidity.Parenthesized
