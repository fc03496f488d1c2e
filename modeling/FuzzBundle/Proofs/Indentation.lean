/-
  FuzzBundle.Proofs.Indentation — indentation, character by character.

  `Text.indent` cuts a text into lines, moves every line that is not empty and joins the lines
  again. Seen from left to right it does one thing at each character, and all it has to know is
  whether a line begins there (`indentFrom`). That is the form in which later modules use it: what
  holds of a text and is not about its blanks can be carried through by induction on the characters.

  Main statements: `toList_indent`, `filter_indent`.
-/
import Mathlib.Data.List.Basic
import FuzzBundle.Proofs.Lines

namespace FuzzBundle.Text

/-! ## §1. The characters of indented lines -/

/-- The characters of a line, moved unless it is empty. -/
def indentLineChars (line : List Char) : List Char :=
  if line = [] then [] else indentation.toList ++ line

/-- The characters of indented lines with line feeds between them. -/
def indentedLines (lines : List (List Char)) : List Char :=
  ['\n'].intercalate (lines.map indentLineChars)

/-- The same where the first line stands as it is. -/
def indentedRest : List (List Char) → List Char
  | [] => []
  | [line] => line
  | line :: next :: more => line ++ '\n' :: indentedLines (next :: more)

theorem indentedLines_nil_cons (lines : List (List Char)) :
    indentedLines ([] :: lines) = if lines = [] then [] else '\n' :: indentedLines lines := by
  cases lines with
  | nil => rfl
  | cons line more =>
    rw [if_neg (by simp)]
    simp [indentedLines, indentLineChars]

/-- A line that begins with a character is the indentation and then the line. -/
theorem indentedLines_cons (c : Char) (line : List Char) (lines : List (List Char)) :
    indentedLines ((c :: line) :: lines)
      = indentation.toList ++ c :: indentedRest (line :: lines) := by
  cases lines with
  | nil => simp [indentedLines, indentLineChars, indentedRest]
  | cons next more =>
    simp [indentedLines, indentLineChars, indentedRest, List.intercalate_cons_cons]

theorem indentedRest_cons (c : Char) (line : List Char) (lines : List (List Char)) :
    indentedRest ((c :: line) :: lines) = c :: indentedRest (line :: lines) := by
  cases lines <;> rfl

theorem toList_indent_eq_lines (s : String) :
    (indent s).toList = indentedLines (splitLines s.toList) := by
  have line (l : List Char) : (indentLine (String.ofList l)).toList = indentLineChars l := by
    unfold indentLine indentLineChars
    by_cases h : l = []
    · subst h
      rfl
    · have present : String.ofList l ≠ "" := by
        intro h'
        exact h (by simpa using congrArg String.toList h')
      rw [if_neg present, if_neg h, String.toList_append, String.toList_ofList]
  unfold indent joinLines lines
  rw [String.toList_intercalate, List.map_map, List.map_map]
  show ['\n'].intercalate _ = ['\n'].intercalate _
  congr 1
  exact List.map_congr_left fun l _ => line l

/-! ## §2. From left to right -/

/-- Indents the characters to the right of a place. A line begins there or has begun before. -/
def indentFrom (lineBegins : Bool) : List Char → List Char
  | [] => []
  | '\n' :: rest => if rest = [] then [] else '\n' :: indentFrom true rest
  | '\r' :: '\n' :: rest => if rest = [] then [] else '\n' :: indentFrom true rest
  | c :: rest => (if lineBegins then indentation.toList else []) ++ c :: indentFrom false rest

/-- No line at all and one empty line are the same rest. -/
theorem indentedRest_headD_tail (lines : List (List Char)) :
    indentedRest (lines.headD [] :: lines.tail) = indentedRest lines := by
  cases lines <;> rfl

/-- **Indenting from left to right is indenting the lines**, where the first line is moved only if
it begins there. -/
theorem indentFrom_eq (lineBegins : Bool) (cs : List Char) :
    indentFrom lineBegins cs
      = if lineBegins then indentedLines (splitLines cs) else indentedRest (splitLines cs) := by
  -- a line end is one character or two, so the induction is the one of `indentFrom`
  fun_induction indentFrom lineBegins cs with
  | case1 b => cases b <;> rfl
  | case2 b => cases b <;> rfl
  | case3 b rest more ih =>
    have lines : splitLines rest ≠ [] := fun h => more ((splitLines_eq_nil_iff rest).1 h)
    rw [ih, splitLines_lineFeed, if_pos rfl, indentedLines_nil_cons, if_neg lines]
    cases h : splitLines rest with
    | nil => exact absurd h lines
    | cons line lines => cases b <;> rfl
  | case4 b => cases b <;> rfl
  | case5 b rest more ih =>
    have lines : splitLines rest ≠ [] := fun h => more ((splitLines_eq_nil_iff rest).1 h)
    rw [ih, splitLines_return, if_pos rfl, indentedLines_nil_cons, if_neg lines]
    cases h : splitLines rest with
    | nil => exact absurd h lines
    | cons line lines => cases b <;> rfl
  | case6 b c rest notFeed notReturn ih =>
    have stays : ¬(c = '\r' ∧ rest.head? = some '\n') := by
      rintro ⟨rfl, hr⟩
      cases rest with
      | nil => cases hr
      | cons d rest =>
        obtain rfl : d = '\n' := by simpa using hr
        exact notReturn rest rfl rfl
    rw [ih, splitLines_cons notFeed stays, indentedLines_cons, indentedRest_cons,
      indentedRest_headD_tail]
    cases b <;> rfl

/-- The characters of an indented text. -/
theorem toList_indent (s : String) : (indent s).toList = indentFrom true s.toList := by
  rw [indentFrom_eq, if_pos rfl, toList_indent_eq_lines]

/-! ## §3. What indentation leaves alone -/

/-- **Indentation touches blanks and line ends only.** -/
theorem filter_indentFrom {p : Char → Bool} (blank : p ' ' = false) (feed : p '\n' = false)
    (carriage : p '\r' = false) (lineBegins : Bool) (cs : List Char) :
    (indentFrom lineBegins cs).filter p = cs.filter p := by
  fun_induction indentFrom lineBegins cs with
  | case1 => rfl
  | case2 => simp [feed]
  | case3 b rest more ih => simp [feed, ih]
  | case4 => simp [feed, carriage]
  | case5 b rest more ih => simp [feed, carriage, ih]
  | case6 b c rest _ _ ih =>
    have moved : (if b then indentation.toList else []).filter p = [] := by
      cases b <;> simp [indentation, blank]
    rw [List.filter_append, moved, List.nil_append, List.filter_cons, List.filter_cons, ih]

theorem filter_indent {p : Char → Bool} (blank : p ' ' = false) (feed : p '\n' = false)
    (carriage : p '\r' = false) (s : String) :
    (indent s).toList.filter p = s.toList.filter p := by
  rw [toList_indent, filter_indentFrom blank feed carriage]

end FuzzBundle.Text
