/-
  FuzzBundle.Proofs.PragmaSpacing — the blanks in a printed pragma.

  The tokens of a version constraint say nothing of blanks. The writer keeps one flag, whether an
  operator may follow without a blank: it may at the front, behind `||` and behind another operator,
  but not behind a part of a version. So every bound of a range stands apart from the one in front
  of it, at any number of bounds and of parts (`foldl_push_bounds`), and the alternatives stand
  apart at ` || ` (`foldl_push_rangeSet`).

  Cutting a printed constraint at ` || ` and then at blanks gives its bounds back. A version in
  front of a range may itself be spelled `||`, in two tokens. It is not mistaken for a mark, as
  marks are found from left to right and none begins inside a range, where every blank has an
  operator right behind it (`unmarked_range`).

  Main statement: `write_spaced`.
-/
import FuzzBundle.Proofs.PragmaOrder
import FuzzBundle.Proofs.StateVariables

namespace FuzzBundle.Text

/-! ## §1. Cutting at a mark of several characters -/

/-- The parts of a text between the places where a mark stands, where some characters of the last
mark that was found are still ahead. -/
def partsFrom (mark : List Char) : Nat → List Char → List (List Char)
  | _, [] => [[]]
  | ahead + 1, _ :: rest => partsFrom mark ahead rest
  | 0, c :: rest =>
    if mark <+: c :: rest then [] :: partsFrom mark (mark.length - 1) rest
    else (partsFrom mark 0 rest).modifyHead (c :: ·)

/-- The parts of a text between the places where a mark stands, found from left to right. -/
def parts (mark cs : List Char) : List (List Char) := partsFrom mark 0 cs

theorem partsFrom_length_append (mark front rest : List Char) :
    partsFrom mark front.length (front ++ rest) = parts mark rest := by
  induction front with
  | nil => rfl
  | cons c front ih =>
    rw [List.cons_append, List.length_cons, partsFrom]
    exact ih

theorem parts_mark_append {mark : List Char} (present : mark ≠ []) (rest : List Char) :
    parts mark (mark ++ rest) = [] :: parts mark rest := by
  obtain ⟨c, more, rfl⟩ := List.exists_cons_of_ne_nil present
  have begins : c :: more <+: c :: (more ++ rest) := List.prefix_append (c :: more) rest
  rw [parts, List.cons_append, partsFrom, if_pos begins, List.length_cons, Nat.add_sub_cancel,
    partsFrom_length_append]

theorem parts_cons {mark rest : List Char} {c : Char} (other : ¬ mark <+: c :: rest) :
    parts mark (c :: rest) = (parts mark rest).modifyHead (c :: ·) := by
  rw [parts, partsFrom, if_neg other, parts]

/-- No mark begins in a text, whatever follows. -/
def Unmarked (mark text : List Char) : Prop :=
  ∀ rest, parts mark (text ++ rest) = (parts mark rest).modifyHead (text ++ ·)

theorem Unmarked.append {mark s t : List Char} (first : Unmarked mark s)
    (second : Unmarked mark t) : Unmarked mark (s ++ t) := by
  intro rest
  rw [List.append_assoc, first, second, List.modifyHead_modifyHead]
  simp only [Function.comp_def, List.append_assoc]

theorem Unmarked.cons {mark text : List Char} {c : Char} (h : Unmarked mark text)
    (other : ∀ rest, ¬ mark <+: c :: (text ++ rest)) : Unmarked mark (c :: text) := by
  intro rest
  rw [List.cons_append, parts_cons (other rest), h, List.modifyHead_modifyHead]
  rfl

/-- The first character of the mark is not in the text. -/
theorem unmarked_of_notMem {c : Char} {more text : List Char} (h : c ∉ text) :
    Unmarked (c :: more) text := by
  induction text with
  | nil => exact fun rest => (congrFun List.modifyHead_id _).symm
  | cons d text ih =>
    rw [List.mem_cons, not_or] at h
    exact (ih h.2).cons fun rest begins => h.1 (List.cons_prefix_cons.1 begins).1

/-- **Texts are found again between the marks**, if no mark begins in them. -/
theorem parts_intercalate {mark : List Char} (present : mark ≠ []) {texts : List (List Char)}
    (some : texts ≠ []) (each : ∀ text ∈ texts, Unmarked mark text) :
    parts mark (mark.intercalate texts) = texts := by
  induction texts with
  | nil => exact absurd rfl some
  | cons text texts ih =>
    obtain ⟨first, later⟩ := List.forall_mem_cons.1 each
    cases texts with
    | nil =>
      have whole := first []
      rw [List.append_nil] at whole
      rw [List.intercalate_singleton, whole]
      simp [parts, partsFrom]
    | cons next texts =>
      rw [List.intercalate_cons_cons, List.append_assoc, first, parts_mark_append present,
        ih (List.cons_ne_nil _ _) later]
      simp

/-- What looks like the next mark is a text when its first blank belongs to the last one. -/
example : parts " || ".toList "1 || || || 2".toList = ["1".toList, "||".toList, "2".toList] := by
  decide

end FuzzBundle.Text

namespace FuzzBundle.Solidity.Pragma

/-! ## §2. Constraints as they are cut into tokens -/

/-- A token begins with a sign that operators are made of. -/
def signed (token : String) : Bool := token.toList.head?.any (· ∈ signs)

/-- A token that is an operator. -/
abbrev Operator := { s : String // signed s = true ∧ ' ' ∉ s.toList }

/-- A token that is a version or a part of one. -/
abbrev VersionPart := { s : String // s ≠ "" ∧ signed s = false ∧ s ≠ "||" ∧ ' ' ∉ s.toList }

/-- A version, cut into parts anyhow, and the operator in front of it, which may be left out. -/
structure Bound where
  operator : Option Operator
  version : List VersionPart
  filled : version ≠ []

namespace Bound

def tokens (b : Bound) : List String :=
  (b.operator.map (·.val)).toList ++ b.version.map (·.val)

def text (b : Bound) : String := String.join b.tokens

end Bound

/-- Bounds that all have to hold. Only the one in front can be without an operator. -/
structure Range where
  first : Bound
  more : List Bound
  operators : ∀ b ∈ more, b.operator ≠ none

namespace Range

def bounds (r : Range) : List Bound := r.first :: r.more

def tokens (r : Range) : List String := r.bounds.flatMap Bound.tokens

/-- The bounds with one blank between them. -/
def text (r : Range) : String := words (r.bounds.map Bound.text)

end Range

/-- Alternatives, one at least. -/
abbrev RangeSet := { rs : List Range // rs ≠ [] }

namespace RangeSet

/-- The tokens of the alternatives, with `||` between them. -/
def tokens (c : RangeSet) : List String := ["||"].intercalate (c.val.map Range.tokens)

/-- The alternatives with ` || ` between them. -/
def text (c : RangeSet) : String := String.intercalate " || " (c.val.map Range.text)

end RangeSet

/-! ## §3. What the writer makes of the tokens -/

theorem isOperator_eq_signed (token : String) : isOperator token = signed token := by
  unfold isOperator signed
  cases token.toList with
  | nil => rfl
  | cons c rest => simp [signs, Bool.or_assoc, beq_eq_decide]

/-! ### One token -/

theorem push_operator (s : State) (o : Operator) :
    s.push o = ⟨s.written ++ (if s.open_ then "" else " ") ++ o, true⟩ := by
  have other : o.val ≠ "||" := fun bars => absurd (bars ▸ o.2.1) (by decide)
  rw [State.push, if_neg other, isOperator_eq_signed, o.2.1]
  cases s.open_ <;> rfl

theorem push_versionPart (s : State) (p : VersionPart) :
    s.push p = ⟨s.written ++ p, false⟩ := by
  obtain ⟨-, unsigned, other, -⟩ := p.2
  rw [State.push, if_neg other, isOperator_eq_signed, unsigned]
  simp

theorem push_bars (s : State) : s.push "||" = ⟨s.written ++ " || ", true⟩ := by
  rw [State.push, if_pos rfl]

/-! ### All tokens of a version, a bound, a range and a constraint -/

theorem foldl_push_version (s : State) {version : List VersionPart} (filled : version ≠ []) :
    (version.map (·.val)).foldl State.push s
      = ⟨s.written ++ String.join (version.map (·.val)), false⟩ := by
  induction version generalizing s with
  | nil => exact absurd rfl filled
  | cons p version ih =>
    rw [List.map_cons, List.foldl_cons, push_versionPart, String.join_cons, ← String.append_assoc]
    cases version with
    | nil => simp
    | cons q version => exact ih ⟨s.written ++ p, false⟩ (List.cons_ne_nil _ _)

/-- A bound is written behind what is there, with a blank in between exactly if it has an operator
and none may follow without a blank. -/
theorem foldl_push_bound (s : State) (b : Bound) :
    b.tokens.foldl State.push s
      = ⟨s.written ++ (if b.operator = none ∨ s.open_ then "" else " ") ++ b.text, false⟩ := by
  rw [Bound.text, Bound.tokens, List.foldl_append, String.join_append,
    foldl_push_version _ b.filled]
  cases b.operator with
  | none => simp
  | some o =>
    simp only [Option.map_some, Option.toList_some, List.foldl_cons, List.foldl_nil, push_operator]
    simp [String.append_assoc]

/-- **Every further bound of a range stands apart from the one in front of it.** -/
theorem foldl_push_bounds {more : List Bound} (operators : ∀ b ∈ more, b.operator ≠ none)
    (front : String) {before : List String} (present : before ≠ []) :
    (more.flatMap Bound.tokens).foldl State.push ⟨front ++ words before, false⟩
      = ⟨front ++ words (before ++ more.map Bound.text), false⟩ := by
  induction more generalizing before with
  | nil => simp
  | cons b more ih =>
    obtain ⟨operator, later⟩ := List.forall_mem_cons.1 operators
    have apart : words (before ++ [b.text]) = words before ++ " " ++ b.text := by
      rw [words, String.intercalate_append_of_ne_nil present (List.cons_ne_nil _ _),
        String.intercalate_singleton]
      rfl
    -- the flag is down behind every bound, so that the operator of this one gets its blank
    have step : b.tokens.foldl State.push ⟨front ++ words before, false⟩
        = ⟨front ++ words (before ++ [b.text]), false⟩ := by
      rw [foldl_push_bound, if_neg (by simp [operator]), apart]
      simp only [String.append_assoc]
    rw [List.flatMap_cons, List.foldl_append, step, ih later (by simp), List.map_cons,
      List.append_assoc, List.singleton_append]

theorem foldl_push_range (front : String) (r : Range) :
    r.tokens.foldl State.push ⟨front, true⟩ = ⟨front ++ r.text, false⟩ := by
  have first : r.first.tokens.foldl State.push ⟨front, true⟩
      = ⟨front ++ words [r.first.text], false⟩ := by
    rw [foldl_push_bound, if_pos (.inr rfl), words, String.intercalate_singleton,
      String.append_empty]
  rw [Range.tokens, Range.bounds, List.flatMap_cons, List.foldl_append, first,
    foldl_push_bounds r.operators front (List.cons_ne_nil _ _)]
  rfl

/-- **The alternatives of a constraint stand apart at** ` || `. -/
theorem foldl_push_rangeSet (front : String) {rs : List Range} (present : rs ≠ []) :
    (["||"].intercalate (rs.map Range.tokens)).foldl State.push ⟨front, true⟩
      = ⟨front ++ String.intercalate " || " (rs.map Range.text), false⟩ := by
  induction rs generalizing front with
  | nil => exact absurd rfl present
  | cons r rs ih =>
    cases rs with
    | nil =>
      rw [List.map_singleton, List.intercalate_singleton, List.map_singleton,
        String.intercalate_singleton]
      exact foldl_push_range front r
    | cons next rs =>
      have later := ih (front ++ r.text ++ " || ") (List.cons_ne_nil _ _)
      simp only [List.map_cons] at later ⊢
      rw [List.intercalate_cons_cons, List.append_assoc, List.foldl_append, foldl_push_range,
        List.foldl_append, List.foldl_cons, List.foldl_nil, push_bars, later,
        String.intercalate_cons_cons]
      simp only [String.append_assoc]

theorem constraint_tokens (c : RangeSet) : constraint c.tokens = c.text := by
  have whole := foldl_push_rangeSet "" c.2
  rw [String.empty_append] at whole
  exact congrArg State.written whole

/-! ## §4. Reading the bounds back -/

theorem Bound.blank_notMem (b : Bound) : ' ' ∉ b.text.toList := by
  rw [text, String.toList_join, List.mem_flatMap]
  rintro ⟨token, member, inToken⟩
  rcases List.mem_append.1 member with isOperator | isVersion
  · obtain ⟨o, -, rfl⟩ := Option.map_eq_some_iff.1 (Option.mem_toList.1 isOperator)
    exact o.2.2 inToken
  · obtain ⟨p, -, rfl⟩ := List.mem_map.1 isVersion
    exact p.2.2.2.2 inToken

theorem Bound.text_ne_empty (b : Bound) : b.text ≠ "" := by
  obtain ⟨p, parts, version⟩ := List.exists_cons_of_ne_nil b.filled
  intro empty
  have chars : (String.join b.tokens).toList = [] := by rw [← text, empty]; rfl
  rw [String.toList_join, List.flatMap_eq_nil_iff] at chars
  have part := chars p.val (by simp [tokens, version])
  exact p.2.1 (String.toList_eq_nil_iff.1 part)

/-- A bound with an operator begins with one of its signs. -/
theorem Bound.signed_text {b : Bound} (h : b.operator ≠ none) : signed b.text = true := by
  obtain ⟨o, operator⟩ := Option.ne_none_iff_exists'.1 h
  have chars : b.text.toList = o.val.toList ++ (String.join (b.version.map (·.val))).toList := by
    rw [text, tokens, operator, String.join_append, String.toList_append]
    simp
  have own := o.2.1
  rw [signed] at own ⊢
  rw [chars, List.head?_append]
  cases first : o.val.toList.head? with
  | none => rw [first] at own; cases own
  | some c => rw [first] at own; exact own

/-- **No mark between alternatives begins in a range**: every blank in it has an operator right
behind it. -/
theorem unmarked_range (r : Range) : Text.Unmarked " || ".toList r.text.toList := by
  obtain ⟨first, more, operators⟩ := r
  show Text.Unmarked " || ".toList (words ((first :: more).map Bound.text)).toList
  induction more generalizing first with
  | nil =>
    rw [List.map_singleton, words, String.intercalate_singleton]
    exact Text.unmarked_of_notMem first.blank_notMem
  | cons b more ih =>
    obtain ⟨operator, later⟩ := List.forall_mem_cons.1 operators
    have cut : (words ((first :: b :: more).map Bound.text)).toList
        = first.text.toList ++ ' ' :: (words ((b :: more).map Bound.text)).toList := by
      simp only [List.map_cons, words]
      rw [String.intercalate_cons_cons, String.toList_append, String.toList_append,
        List.append_assoc]
      rfl
    have sign : (words ((b :: more).map Bound.text)).toList.head?.any (· ∈ signs) = true := by
      rw [List.map_cons, head?_words_cons b.text_ne_empty]
      exact Bound.signed_text operator
    rw [cut]
    refine .append (Text.unmarked_of_notMem first.blank_notMem) ((ih b later).cons ?_)
    -- a mark goes on with a bar, and a bar is no sign
    rintro rest ⟨behind, begins⟩
    cases chars : (words ((b :: more).map Bound.text)).toList with
    | nil => rw [chars] at sign; cases sign
    | cons c more =>
      rw [chars] at sign begins
      obtain rfl : '|' = c := (List.cons.inj (List.cons.inj begins).2).1
      exact absurd sign (by simp [signs])

theorem Range.blank_notMem (r : Range) : ∀ text ∈ r.bounds.map Bound.text, ' ' ∉ text.toList :=
  List.forall_mem_map.2 fun b _ => b.blank_notMem

theorem pieces_range (r : Range) :
    Text.pieces ' ' r.text.toList = r.bounds.map fun b => b.text.toList := by
  have some : r.bounds.map Bound.text ≠ [] := List.cons_ne_nil _ _
  have single : " ".toList = [' '] := rfl
  have back := Text.pieces_intercalate single some r.blank_notMem
  rwa [List.map_map] at back

theorem parts_rangeSet (c : RangeSet) :
    Text.parts " || ".toList c.text.toList = c.val.map fun r => r.text.toList := by
  rw [RangeSet.text, String.toList_intercalate, List.map_map]
  refine Text.parts_intercalate (by decide) (by simpa using c.2) fun text member => ?_
  obtain ⟨r, -, rfl⟩ := List.mem_map.1 member
  exact unmarked_range r

/-! ### What is left without the blanks -/

theorem filter_words {texts : List String} (apart : ∀ text ∈ texts, ' ' ∉ text.toList) :
    (words texts).toList.filter (· ≠ ' ') = texts.flatMap String.toList := by
  have own {text : String} (h : ' ' ∉ text.toList) :
      text.toList.filter (· ≠ ' ') = text.toList :=
    List.filter_eq_self.2 fun c hc => decide_eq_true (ne_of_mem_of_not_mem hc h)
  induction texts with
  | nil => rfl
  | cons text texts ih =>
    obtain ⟨first, later⟩ := List.forall_mem_cons.1 apart
    cases texts with
    | nil => simpa [words] using own first
    | cons next texts =>
      rw [words, String.intercalate_cons_cons, ← words, String.toList_append, String.toList_append,
        List.filter_append, List.filter_append, own first, ih later, List.flatMap_cons]
      simp

theorem filter_range (r : Range) :
    r.text.toList.filter (· ≠ ' ') = r.tokens.flatMap String.toList := by
  rw [Range.text, filter_words r.blank_notMem, Range.tokens, List.flatMap_assoc, List.flatMap_map]
  exact congrArg (r.bounds.flatMap ·) (funext fun b => String.toList_join)

theorem filter_rangeSet (c : RangeSet) :
    c.text.toList.filter (· ≠ ' ') = (String.join c.tokens).toList := by
  obtain ⟨rs, present⟩ := c
  rw [String.toList_join]
  show (String.intercalate " || " (rs.map Range.text)).toList.filter _
    = (["||"].intercalate (rs.map Range.tokens)).flatMap String.toList
  clear present
  induction rs with
  | nil => rfl
  | cons r rs ih =>
    cases rs with
    | nil => simpa using filter_range r
    | cons next rs =>
      simp only [List.map_cons, String.intercalate_cons_cons, List.intercalate_cons_cons,
        String.toList_append, List.filter_append, List.flatMap_append] at ih ⊢
      rw [ih, filter_range]
      rfl

theorem RangeSet.text_ne_empty (c : RangeSet) : c.text ≠ "" := by
  intro empty
  have cut := parts_rangeSet c
  rw [empty] at cut
  obtain ⟨rs, present⟩ := c
  obtain ⟨r, more, rfl⟩ := List.exists_cons_of_ne_nil present
  have blank : r.text.toList = [] := (List.cons.inj cut).1.symm
  have bounds := pieces_range r
  rw [blank] at bounds
  exact r.first.text_ne_empty (String.toList_eq_nil_iff.1 (List.cons.inj bounds).1.symm)

/-! ## §5. Printed pragmas -/

/-- **A pragma is printed with its bounds apart.** Its alternatives have ` || ` between them and the
bounds of each have one blank between them. So the bounds are found again by cutting, and nothing
but blanks is added to the tokens. -/
theorem write_spaced (w : Writer) {n : Node} {name : String} {c : RangeSet}
    (kind : n.kind = .pragmaDirective) (literals : n.strings "literals" = name :: c.tokens) :
    w.write n = "pragma " ++ name ++ " " ++ c.text ++ ";"
    ∧ (Text.parts " || ".toList c.text.toList).map (Text.pieces ' ')
      = c.val.map (fun r => r.bounds.map fun b => b.text.toList)
    ∧ c.text.toList.filter (· ≠ ' ') = (String.join c.tokens).toList := by
  refine ⟨?_, ?_, filter_rangeSet c⟩
  · have printed : w.write n = layout n := by
      rw [Writer.write, w.print_eq]
      simp only [Solidity.layout, anyLayout, kind]
    rw [printed, layout, literals]
    simp only [constraint_tokens, if_neg c.text_ne_empty]
  · rw [parts_rangeSet, List.map_map]
    exact congrArg (c.val.map ·) (funext pieces_range)

/-- The constraint `0.5.1 <0.9.0 || ^0.6.0`, with versions cut as a compiler cuts them. -/
def fiveOrSix : RangeSet :=
  ⟨[{ first := ⟨none, [⟨"0.5", by decide⟩, ⟨".1", by decide⟩], by simp⟩
      more := [⟨some ⟨"<", by decide⟩, [⟨"0.9", by decide⟩, ⟨".0", by decide⟩], by simp⟩]
      operators := by simp },
    { first := ⟨some ⟨"^", by decide⟩, [⟨"0.6", by decide⟩, ⟨".0", by decide⟩], by simp⟩
      more := []
      operators := by simp }], by simp⟩

/-- Two alternatives, the first of them a range without an operator in front. -/
theorem write_spaced_fiveOrSix :
    (pragmaWith fiveOrSix.tokens).kind = .pragmaDirective
    ∧ (pragmaWith fiveOrSix.tokens).strings "literals"
      = ["solidity", "0.5", ".1", "<", "0.9", ".0", "||", "^", "0.6", ".0"]
    ∧ ({} : Writer).write (pragmaWith fiveOrSix.tokens)
      = "pragma solidity 0.5.1 <0.9.0 || ^0.6.0;"
    ∧ (Text.parts " || ".toList "0.5.1 <0.9.0 || ^0.6.0".toList).map (Text.pieces ' ')
      = [["0.5.1".toList, "<0.9.0".toList], ["^0.6.0".toList]]
    ∧ "0.5.1 <0.9.0 || ^0.6.0".toList.filter (· ≠ ' ') = "0.5.1<0.9.0||^0.6.0".toList := by
  have kind : (pragmaWith fiveOrSix.tokens).kind = .pragmaDirective := by decide +kernel
  have literals : (pragmaWith fiveOrSix.tokens).strings "literals"
      = "solidity" :: fiveOrSix.tokens := by decide +kernel
  have text : fiveOrSix.text = "0.5.1 <0.9.0 || ^0.6.0" := by decide +kernel
  obtain ⟨printed, cut, unspaced⟩ := write_spaced {} kind literals
  rw [text] at printed cut unspaced
  exact ⟨kind, literals.trans (by decide +kernel), printed.trans (by decide +kernel),
    cut.trans (by decide +kernel), unspaced.trans (by decide +kernel)⟩

end FuzzBundle.Solidity.Pragma
