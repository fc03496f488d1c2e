/-
  FuzzBundle.Text.Lines — the lines of a text, and indentation.

  A line ends at a line feed, and one carriage return before the line feed belongs to the line
  end. What follows the last line feed is a line only if it is not empty, and there a final carriage
  return stays. `indent` moves every line that is not empty four spaces to the right.

  Main statements: the equations of `splitLines`, character by character (`splitLines_lineFeed`,
  `splitLines_return`, `splitLines_cons`).
-/

namespace FuzzBundle.Text

/-! ## §1. Lines -/

/-- The lines to the right of a position, and whether a line feed stands right there. -/
structure LinesFrom where
  lines : List (List Char)
  atFeed : Bool

/-- Puts one more character in front. -/
def LinesFrom.push (c : Char) (s : LinesFrom) : LinesFrom :=
  if c = '\n' then ⟨[] :: s.lines, true⟩
  else if c = '\r' ∧ s.atFeed then ⟨s.lines, false⟩
  else
    match s.lines with
    | [] => ⟨[[c]], false⟩
    | line :: rest => ⟨(c :: line) :: rest, false⟩

/-- The lines of some characters, with the state at their beginning. -/
def linesFrom (cs : List Char) : LinesFrom := cs.foldr LinesFrom.push ⟨[], false⟩

/-- The lines of some characters. -/
def splitLines (cs : List Char) : List (List Char) := (linesFrom cs).lines

/-- The lines of a text. -/
def lines (s : String) : List String := (splitLines s.toList).map String.ofList

@[simp] theorem splitLines_nil : splitLines [] = [] := rfl

theorem linesFrom_cons (c : Char) (cs : List Char) :
    linesFrom (c :: cs) = (linesFrom cs).push c := rfl

theorem atFeed_linesFrom (cs : List Char) : (linesFrom cs).atFeed = (cs.head? == some '\n') := by
  cases cs with
  | nil => rfl
  | cons c cs =>
    rw [linesFrom_cons, LinesFrom.push]
    split
    · next h => simp [h]
    · next h =>
      split
      · simp [h]
      · split <;> simp [h]

/-- A line feed ends the line before it. -/
theorem splitLines_lineFeed (cs : List Char) : splitLines ('\n' :: cs) = [] :: splitLines cs := rfl

/-- A carriage return before a line feed belongs to the line end. -/
theorem splitLines_return (cs : List Char) :
    splitLines ('\r' :: '\n' :: cs) = [] :: splitLines cs := rfl

/-- Any other character belongs to the first line of what follows it. -/
theorem splitLines_cons {c : Char} {cs : List Char} (h : c ≠ '\n')
    (hr : ¬(c = '\r' ∧ cs.head? = some '\n')) :
    splitLines (c :: cs) = (c :: (splitLines cs).headD []) :: (splitLines cs).tail := by
  have hr' : ¬(c = '\r' ∧ (linesFrom cs).atFeed = true) := by
    rw [atFeed_linesFrom]; simpa using hr
  simp only [splitLines, linesFrom_cons, LinesFrom.push, h, hr', if_false]
  cases (linesFrom cs).lines <;> rfl

/-! ## §2. Joining and indenting -/

/-- Texts with a line feed between them. -/
def joinLines (lines : List String) : String := String.intercalate "\n" lines

/-- One step of indentation. -/
def indentation : String := "    "

/-- A line moved one step to the right, unless it is empty. -/
def indentLine (line : String) : String := if line = "" then "" else indentation ++ line

/-- A text with every line that is not empty moved one step to the right. -/
def indent (s : String) : String := joinLines ((lines s).map indentLine)

end FuzzBundle.Text
