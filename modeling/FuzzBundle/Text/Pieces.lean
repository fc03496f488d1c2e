/-
  FuzzBundle.Text.Pieces — cutting a text at a separator.

  `pieces` keeps empty pieces, so that a text with `n` separators has `n + 1` pieces and putting the
  separator between them gives the text back (`joinPieces_pieces`).
-/

namespace FuzzBundle.Text

/-- The parts of a text between the places where a separator stands. -/
def pieces (separator : Char) : List Char → List (List Char)
  | [] => [[]]
  | c :: rest =>
    if c = separator then [] :: pieces separator rest
    else
      match pieces separator rest with
      | [] => [[c]]
      | piece :: more => (c :: piece) :: more

/-- Parts with a separator between them. -/
def joinPieces (separator : Char) : List (List Char) → List Char
  | [] => []
  | [piece] => piece
  | piece :: next :: more => piece ++ separator :: joinPieces separator (next :: more)

theorem pieces_ne_nil (separator : Char) (cs : List Char) : pieces separator cs ≠ [] := by
  cases cs with
  | nil => simp [pieces]
  | cons c rest =>
    rw [pieces]
    split
    · simp
    · split <;> simp

/-- The pieces of a text make up the text. -/
theorem joinPieces_pieces (separator : Char) (cs : List Char) :
    joinPieces separator (pieces separator cs) = cs := by
  induction cs with
  | nil => rfl
  | cons c rest ih =>
    rw [pieces]
    split
    · next h =>
      subst h
      cases hp : pieces c rest with
      | nil => exact absurd hp (pieces_ne_nil c rest)
      | cons piece more =>
        rw [hp] at ih
        rw [joinPieces, ih, List.nil_append]
    · cases hp : pieces separator rest with
      | nil => exact absurd hp (pieces_ne_nil separator rest)
      | cons piece more =>
        rw [hp] at ih
        cases more with
        | nil => simpa [joinPieces] using ih
        | cons next more => simpa [joinPieces] using ih

end FuzzBundle.Text
