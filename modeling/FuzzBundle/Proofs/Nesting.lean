/-
  FuzzBundle.Proofs.Nesting — texts whose brackets are nested.

  Round, square and curly brackets are read from left to right with the closing brackets that are
  still awaited, innermost first (`awaitedAfter`). A text is `Nested` when none is awaited after it
  and none of its own came unawaited. What is awaited around such a text stays as it was
  (`Nested.within`), so nested texts can be put next to each other and between brackets, and
  whatever is not a bracket may come and go (`nested_congr`).

  Main statements: `Nested.within`, `nested_congr`, `nested_indent`, `nested_intercalate`.
-/
import FuzzBundle.Proofs.Indentation
import FuzzBundle.Solidity.Layout
import FuzzBundle.Text.Quoted

namespace FuzzBundle.Text

/-! ## §1. Reading brackets -/

/-- The bracket that closes what a character opens. -/
def closerOf? (c : Char) : Option Char :=
  if c = '(' then some ')' else if c = '[' then some ']' else if c = '\x7b' then some '\x7d'
  else none

/-- Whether a character is a closing bracket. -/
def isCloser (c : Char) : Bool := c == ')' || c == ']' || c == '\x7d'

/-- Whether a character is a bracket. -/
def isBracket (c : Char) : Bool := (closerOf? c).isSome || isCloser c

/-- The closing brackets that are awaited after one more character. A closing bracket must be the
one that is awaited first. -/
def awaitStep (awaited : List Char) (c : Char) : Option (List Char) :=
  match closerOf? c with
  | some closer => some (closer :: awaited)
  | none =>
    if isCloser c then
      match awaited with
      | [] => none
      | closer :: rest => if c = closer then some rest else none
    else some awaited

/-- The closing brackets that are awaited after some more characters. -/
def awaitedAfter (awaited : List Char) (cs : List Char) : Option (List Char) :=
  cs.foldlM awaitStep awaited

/-- Every bracket of a text is closed by its partner, and what opens later is closed earlier. -/
def Nested (s : String) : Prop := awaitedAfter [] s.toList = some []

instance (s : String) : Decidable (Nested s) := inferInstanceAs (Decidable (_ = _))

/-- A text without brackets. -/
def BracketFree (s : String) : Prop := ∀ c ∈ s.toList, isBracket c = false

instance (s : String) : Decidable (BracketFree s) :=
  List.decidableBAll (fun c => isBracket c = false) s.toList

example : Nested "f(a[0]) \x7b g(); \x7d" ∧ ¬ Nested "(a[0)]" := by decide

@[simp] theorem awaitedAfter_nil (awaited : List Char) : awaitedAfter awaited [] = some awaited :=
  rfl

@[simp] theorem awaitedAfter_cons (awaited : List Char) (c : Char) (cs : List Char) :
    awaitedAfter awaited (c :: cs) = (awaitStep awaited c).bind (awaitedAfter · cs) := rfl

@[simp] theorem awaitedAfter_append (awaited : List Char) (cs ds : List Char) :
    awaitedAfter awaited (cs ++ ds) = (awaitedAfter awaited cs).bind (awaitedAfter · ds) :=
  List.foldlM_append

/-- What is awaited further outside does not matter. -/
theorem awaitStep_outside {awaited awaited' : List Char} {c : Char}
    (h : awaitStep awaited c = some awaited') (outside : List Char) :
    awaitStep (awaited ++ outside) c = some (awaited' ++ outside) := by
  cases opens : closerOf? c with
  | some closer =>
    simp only [awaitStep, opens] at h ⊢
    cases h
    rfl
  | none =>
    by_cases closes : isCloser c = true
    · cases awaited with
      | nil => simp [awaitStep, opens, closes] at h
      | cons closer rest =>
        by_cases awaits : c = closer
        · subst awaits
          simp only [awaitStep, opens, closes, if_true, List.cons_append] at h ⊢
          cases h
          rfl
        · simp [awaitStep, opens, closes, awaits] at h
    · simp only [awaitStep, opens, closes] at h ⊢
      cases h
      rfl

theorem awaitedAfter_outside {awaited awaited' : List Char} {cs : List Char}
    (h : awaitedAfter awaited cs = some awaited') (outside : List Char) :
    awaitedAfter (awaited ++ outside) cs = some (awaited' ++ outside) := by
  induction cs generalizing awaited with
  | nil =>
    cases h
    rfl
  | cons c cs ih =>
    rw [awaitedAfter_cons, Option.bind_eq_some_iff] at h
    obtain ⟨next, step, rest⟩ := h
    rw [awaitedAfter_cons, awaitStep_outside step, Option.bind_some, ih rest]

/-- **A nested text leaves what is awaited around it.** -/
theorem Nested.within {s : String} (h : Nested s) (awaited : List Char) :
    awaitedAfter awaited s.toList = some awaited :=
  awaitedAfter_outside h awaited

/-! ## §2. Other characters -/

/-- Only brackets count. -/
theorem awaitedAfter_filter (awaited : List Char) (cs : List Char) :
    awaitedAfter awaited (cs.filter isBracket) = awaitedAfter awaited cs := by
  induction cs generalizing awaited with
  | nil => rfl
  | cons c cs ih =>
    by_cases h : isBracket c = true
    · rw [List.filter_cons_of_pos h, awaitedAfter_cons, awaitedAfter_cons]
      congr 1
      funext next
      exact ih next
    · have stays : awaitStep awaited c = some awaited := by
        have h' : closerOf? c = none ∧ isCloser c = false := by simpa [isBracket] using h
        simp [awaitStep, h']
      rw [List.filter_cons_of_neg h, ih, awaitedAfter_cons, stays, Option.bind_some]

/-- **Texts with the same brackets are nested alike.** -/
theorem nested_congr {s t : String}
    (h : s.toList.filter isBracket = t.toList.filter isBracket) : Nested s ↔ Nested t := by
  unfold Nested
  rw [← awaitedAfter_filter, h, awaitedAfter_filter]

theorem nested_of_bracketFree {s : String} (h : BracketFree s) : Nested s := by
  have none : s.toList.filter isBracket = [] := by
    rw [List.filter_eq_nil_iff]
    intro c hc
    simp [h c hc]
  unfold Nested
  rw [← awaitedAfter_filter, none]
  rfl

theorem nested_indent {s : String} (h : Nested s) : Nested (indent s) :=
  (nested_congr (filter_indent (by decide) (by decide) (by decide) s)).2 h

/-- Dropping other characters from the front drops no bracket. -/
theorem filter_dropWhile {p : Char → Bool} (other : ∀ c, p c = true → isBracket c = false)
    (cs : List Char) : (cs.dropWhile p).filter isBracket = cs.filter isBracket := by
  induction cs with
  | nil => rfl
  | cons c cs ih =>
    by_cases h : p c = true
    · rw [List.dropWhile_cons_of_pos h, List.filter_cons_of_neg (by simp [other c h]), ih]
    · rw [List.dropWhile_cons_of_neg h]

theorem filter_dropEndWhile {p : Char → Bool} (other : ∀ c, p c = true → isBracket c = false)
    (cs : List Char) : (dropEndWhile p cs).filter isBracket = cs.filter isBracket := by
  unfold dropEndWhile
  rw [List.filter_reverse, filter_dropWhile other, List.filter_reverse, List.reverse_reverse]

theorem not_isBracket_of_isBlank {c : Char} (h : isBlank c = true) : isBracket c = false := by
  by_contra hb
  have brackets : c = '(' ∨ c = '[' ∨ c = '\x7b' ∨ c = ')' ∨ c = ']' ∨ c = '\x7d' := by
    simp only [isBracket, closerOf?, isCloser] at hb
    grind
  rcases brackets with rfl | rfl | rfl | rfl | rfl | rfl <;> cases h

theorem nested_trim {s : String} (h : Nested s) : Nested (trim s) := by
  refine (nested_congr ?_).2 h
  unfold trim trimChars
  rw [String.toList_ofList, filter_dropEndWhile fun _ => not_isBracket_of_isBlank,
    filter_dropWhile fun _ => not_isBracket_of_isBlank]

theorem nested_trimEndChar {s : String} {c : Char} (hc : isBracket c = false) (h : Nested s) :
    Nested (trimEndChar c s) := by
  refine (nested_congr ?_).2 h
  unfold trimEndChar
  rw [String.toList_ofList, filter_dropEndWhile]
  intro d hd
  obtain rfl : d = c := by simpa using hd
  exact hc

/-! ## §3. Nested texts put together -/

@[simp] theorem nested_empty : Nested "" := by decide

theorem nested_append {s t : String} (hs : Nested s) (ht : Nested t) : Nested (s ++ t) := by
  simp [Nested, hs.within, ht.within]

theorem nested_intercalate {separator : String} (hs : Nested separator) {texts : List String}
    (h : ∀ t ∈ texts, Nested t) : Nested (String.intercalate separator texts) := by
  induction texts with
  | nil => simp
  | cons t texts ih =>
    have ht : Nested t := h t List.mem_cons_self
    cases texts with
    | nil => simpa using ht
    | cons u more =>
      have rest := ih fun v hv => h v (List.mem_cons_of_mem t hv)
      rw [String.intercalate_cons_cons]
      exact nested_append (nested_append ht hs) rest

theorem nested_joinLines {lines : List String} (h : ∀ t ∈ lines, Nested t) :
    Nested (joinLines lines) :=
  nested_intercalate (by decide) h

theorem nested_join {texts : List String} (h : ∀ t ∈ texts, Nested t) :
    Nested (String.join texts) := by
  induction texts with
  | nil => exact nested_empty
  | cons t texts ih =>
    have split : String.join (t :: texts) = t ++ String.join texts := by
      rw [← String.toList_inj, String.toList_append, String.toList_join, String.toList_join,
        List.flatMap_cons]
    rw [split]
    exact nested_append (h t List.mem_cons_self) (ih fun u hu => h u (List.mem_cons_of_mem t hu))

-- The brackets of a literal are read by `simp`, so that a text made of literals and nested texts is
-- seen to be nested by reading it.
attribute [simp] awaitStep closerOf? isCloser

/-! ## §4. Texts without brackets -/

theorem bracketFree_append {s t : String} (hs : BracketFree s) (ht : BracketFree t) :
    BracketFree (s ++ t) := by
  intro c hc
  rw [String.toList_append, List.mem_append] at hc
  exact hc.elim (hs c) (ht c)

theorem bracketFree_joinLines {lines : List String} (h : ∀ t ∈ lines, BracketFree t) :
    BracketFree (joinLines lines) := by
  unfold joinLines
  induction lines with
  | nil => exact fun _ hc => by cases hc
  | cons t lines ih =>
    have ht : BracketFree t := h t List.mem_cons_self
    cases lines with
    | nil => simpa using ht
    | cons u more =>
      have rest := ih fun v hv => h v (List.mem_cons_of_mem t hv)
      rw [String.intercalate_cons_cons]
      exact bracketFree_append (bracketFree_append ht (by decide)) rest

/-- A text made of characters of another one that has no brackets. -/
theorem bracketFree_of_subset {s t : String} (sub : s.toList ⊆ t.toList) (h : BracketFree t) :
    BracketFree s :=
  fun c hc => h c (sub hc)

end FuzzBundle.Text
