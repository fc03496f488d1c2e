/-
  FuzzBundle.Proofs.Lines — texts that are put together from lines.

  A line feed cuts a text in two: the lines of the whole are the lines up to and with it and the
  lines behind it (`splitLines_append_feed`). So texts that end at a line end (`EndsLine`) can be
  put together, and the lines of the result are their lines one after the other. Lines without line
  ends of their own, each with its line feed, are the lines of the text that they make up
  (`lines_terminated`).

  Texts with a separator between them are found again where it stands, if it is in none of them
  (`pieces_intercalate`), so that different texts make different ones (`intercalate_inj`). Lines are
  such texts, and so are the names in a path.

  Main statements: `mem_splitLines`, `lines_append`, `lines_terminated`, `joinLines_append`,
  `lines_joinLines`, `pieces_intercalate`, `intercalate_inj`.
-/
import FuzzBundle.Proofs.ListReading
import FuzzBundle.Text.Lines
import FuzzBundle.Text.Pieces

namespace FuzzBundle.Text

/-! ## §1. Cutting a text -/

/-- A line is a part of the text, and no line feed is in it. -/
theorem mem_splitLines {cs line : List Char} (h : line ∈ splitLines cs) :
    line ⊆ cs ∧ '\n' ∉ line := by
  induction cs generalizing line with
  | nil => simp at h
  | cons c cs ih =>
    have later {line : List Char} (hl : line ∈ splitLines cs) : line ⊆ c :: cs ∧ '\n' ∉ line :=
      ⟨List.subset_cons_of_subset c (ih hl).1, (ih hl).2⟩
    rw [splitLines, linesFrom_cons, LinesFrom.push] at h
    split at h
    · rcases List.mem_cons.1 h with rfl | h
      · simp
      · exact later h
    · next notFeed =>
      split at h
      · exact later h
      · split at h
        · obtain rfl : line = [c] := by simpa using h
          simp [Ne.symm notFeed]
        · next first rest hs =>
          rcases List.mem_cons.1 h with rfl | h
          · have own : first ∈ splitLines cs := by rw [splitLines, hs]; exact List.mem_cons_self
            refine ⟨List.cons_subset_cons c (ih own).1, ?_⟩
            rw [List.mem_cons, not_or]
            exact ⟨Ne.symm notFeed, (ih own).2⟩
          · exact later (by rw [splitLines, hs]; exact List.mem_cons_of_mem first h)

theorem splitLines_eq_nil_iff (cs : List Char) : splitLines cs = [] ↔ cs = [] := by
  cases cs with
  | nil => simp
  | cons c cs =>
    by_cases h : c = '\n'
    · subst h
      simp [splitLines_lineFeed]
    · by_cases hr : c = '\r' ∧ cs.head? = some '\n'
      · obtain ⟨rfl, hr⟩ := hr
        cases cs with
        | nil => cases hr
        | cons d cs =>
          obtain rfl : d = '\n' := by simpa using hr
          simp [splitLines_return]
      · simp [splitLines_cons h hr]

/-- **A line feed cuts a text in two.** A carriage return before it belongs to the first part. -/
theorem splitLines_append_feed (xs ys : List Char) :
    splitLines (xs ++ '\n' :: ys) = splitLines (xs ++ ['\n']) ++ splitLines ys := by
  -- a character is pushed onto the first part alone, because that has a first line already
  have parts : (linesFrom (xs ++ ['\n'])).lines ≠ []
      ∧ linesFrom (xs ++ '\n' :: ys)
        = ⟨(linesFrom (xs ++ ['\n'])).lines ++ splitLines ys,
          (linesFrom (xs ++ ['\n'])).atFeed⟩ := by
    induction xs with
    | nil => exact ⟨by simp [linesFrom, LinesFrom.push], rfl⟩
    | cons c xs ih =>
      obtain ⟨present, eq⟩ := ih
      rw [List.cons_append, List.cons_append, linesFrom_cons, linesFrom_cons, eq]
      unfold LinesFrom.push
      split
      · exact ⟨by simp, rfl⟩
      · split
        · exact ⟨present, rfl⟩
        · cases first : (linesFrom (xs ++ ['\n'])).lines with
          | nil => exact absurd first present
          | cons line more => exact ⟨by simp, rfl⟩
  exact congrArg LinesFrom.lines parts.2

/-- A line without line ends of its own, and what follows it. -/
theorem splitLines_line {line : List Char} (feed : '\n' ∉ line) (carriage : '\r' ∉ line)
    (rest : List Char) : splitLines (line ++ '\n' :: rest) = line :: splitLines rest := by
  induction line with
  | nil => exact splitLines_lineFeed rest
  | cons c line ih =>
    rw [List.mem_cons, not_or] at feed carriage
    rw [List.cons_append, splitLines_cons (Ne.symm feed.1) (fun h => carriage.1 h.1.symm),
      ih feed.2 carriage.2]
    rfl

/-- A text without line feeds is one line. -/
theorem lines_line {line : String} (present : line ≠ "") (unbroken : '\n' ∉ line.toList) :
    lines line = [line] := by
  have whole (c : Char) (cs : List Char) (h : '\n' ∉ c :: cs) :
      splitLines (c :: cs) = [c :: cs] := by
    induction cs generalizing c with
    | nil => exact splitLines_cons (fun hc => h (hc ▸ List.mem_cons_self)) (by simp)
    | cons d cs ih =>
      rw [List.mem_cons, not_or] at h
      have stays : ¬(c = '\r' ∧ (d :: cs).head? = some '\n') :=
        fun hc => h.2 (List.mem_of_mem_head? hc.2)
      rw [splitLines_cons (Ne.symm h.1) stays, ih d h.2]
      rfl
  cases chars : line.toList with
  | nil => exact absurd (String.toList_eq_nil_iff.1 chars) present
  | cons c cs =>
    rw [chars] at unbroken
    rw [lines, chars, whole c cs unbroken, List.map_singleton, ← chars, String.ofList_toList]

theorem lines_ne_nil {s : String} (present : s ≠ "") : lines s ≠ [] := by
  rw [lines, Ne, List.map_eq_nil_iff, splitLines_eq_nil_iff]
  exact fun h => present (String.toList_eq_nil_iff.1 h)

/-! ## §2. Putting lines together -/

/-- Texts, each with a line feed behind it. -/
def terminated (texts : List String) : String := String.join (texts.map (· ++ "\n"))

@[simp] theorem terminated_nil : terminated [] = "" := rfl

@[simp] theorem terminated_cons (text : String) (texts : List String) :
    terminated (text :: texts) = text ++ "\n" ++ terminated texts := String.join_cons

/-- A text behind which a line begins. -/
def EndsLine (s : String) : Prop := s = "" ∨ ∃ front, s = front ++ "\n"

theorem endsLine_terminated (texts : List String) : EndsLine (terminated texts) := by
  induction texts with
  | nil => exact .inl rfl
  | cons text texts ih =>
    refine .inr ?_
    rcases ih with nothing | ⟨front, eq⟩
    · exact ⟨text, by rw [terminated_cons, nothing, String.append_empty]⟩
    · exact ⟨text ++ "\n" ++ front, by rw [terminated_cons, eq, ← String.append_assoc]⟩

/-- The lines of a text that ends at a line end, and of what follows it. -/
theorem lines_append {s : String} (h : EndsLine s) (t : String) :
    lines (s ++ t) = lines s ++ lines t := by
  rcases h with rfl | ⟨front, rfl⟩
  · rw [String.empty_append]
    rfl
  · have cut := splitLines_append_feed front.toList t.toList
    simp [lines, cut]

/-- **Lines are read as they were put together.** -/
theorem lines_terminated {texts : List String}
    (unbroken : ∀ text ∈ texts, '\n' ∉ text.toList ∧ '\r' ∉ text.toList) :
    lines (terminated texts) = texts := by
  induction texts with
  | nil => rfl
  | cons text texts ih =>
    obtain ⟨feed, carriage⟩ := unbroken text List.mem_cons_self
    have chars : (terminated (text :: texts)).toList
        = text.toList ++ '\n' :: (terminated texts).toList := by simp
    rw [lines, chars, splitLines_line feed carriage, List.map_cons, String.ofList_toList]
    exact congrArg (text :: ·) (ih fun t ht => unbroken t (List.mem_cons_of_mem text ht))

/-- Where something follows, every text before it has its line feed. -/
theorem joinLines_append (earlier : List String) (text : String) (later : List String) :
    joinLines (earlier ++ text :: later) = terminated earlier ++ joinLines (text :: later) := by
  induction earlier with
  | nil => rw [terminated_nil, String.empty_append, List.nil_append]
  | cons first earlier ih =>
    rw [List.cons_append, joinLines, String.intercalate_cons_of_ne_nil (by simp), ← joinLines, ih,
      terminated_cons, ← String.append_assoc]

theorem joinLines_append_feed {texts : List String} (present : texts ≠ []) :
    joinLines texts ++ "\n" = terminated texts := by
  induction texts with
  | nil => exact absurd rfl present
  | cons text texts ih =>
    cases texts with
    | nil => simp [joinLines]
    | cons next texts =>
      rw [joinLines, String.intercalate_cons_cons, ← joinLines, String.append_assoc, ih (by simp),
        ← terminated_cons]

/-- Texts that are put together part by part. -/
theorem joinLines_groups {groups : List (List String)} (present : ∀ group ∈ groups, group ≠ []) :
    joinLines (groups.map joinLines) = joinLines groups.flatten := by
  induction groups with
  | nil => rfl
  | cons group groups ih =>
    obtain ⟨first, later⟩ := List.forall_mem_cons.1 present
    cases groups with
    | nil => simp [joinLines]
    | cons next groups =>
      obtain ⟨text, more, rfl⟩ := List.exists_cons_of_ne_nil (later next List.mem_cons_self)
      have tail : ((text :: more) :: groups).flatten = text :: (more ++ groups.flatten) := rfl
      rw [List.map_cons, List.flatten_cons, tail, joinLines_append, ← joinLines_append_feed first,
        ← tail, ← ih later]
      exact String.intercalate_cons_of_ne_nil (List.cons_ne_nil _ _)

/-- A text that ends with a character, and this belongs to no line end. -/
def EndsPlain (text : String) : Prop :=
  ∃ front c, text.toList = front ++ [c] ∧ c ≠ '\n' ∧ c ≠ '\r'

/-- A line feed behind such a text ends its last line and begins none. -/
theorem lines_feed {text : String} (h : EndsPlain text) : lines (text ++ "\n") = lines text := by
  obtain ⟨front, c, eq, feed, carriage⟩ := h
  have last : linesFrom [c, '\n'] = linesFrom [c] := by
    simp [linesFrom, LinesFrom.push, feed, carriage]
  have chars : (text ++ "\n").toList = front ++ [c, '\n'] := by
    rw [String.toList_append, eq, List.append_assoc]
    rfl
  have whole : linesFrom (front ++ [c, '\n']) = linesFrom (front ++ [c]) := by
    rw [linesFrom, List.foldr_append, ← linesFrom, last, linesFrom, ← List.foldr_append]
    rfl
  rw [lines, lines, chars, eq, splitLines, whole, splitLines]

/-- **The lines of texts that are put together** are the lines of one after the other, if each of
them ends with a character of its own. -/
theorem lines_joinLines {texts : List String} (h : ∀ text ∈ texts, EndsPlain text) :
    lines (joinLines texts) = texts.flatMap lines := by
  induction texts with
  | nil => rfl
  | cons text texts ih =>
    obtain ⟨first, later⟩ := List.forall_mem_cons.1 h
    cases texts with
    | nil => simp [joinLines]
    | cons next texts =>
      have cut : joinLines (text :: next :: texts) = text ++ "\n" ++ joinLines (next :: texts) :=
        String.intercalate_cons_cons
      rw [cut, lines_append (.inr ⟨text, rfl⟩), lines_feed first, ih later]
      rfl

/-! ## §3. Cutting at a separator -/

theorem pieces_of_not_mem {separator : Char} {cs : List Char} (h : separator ∉ cs) :
    pieces separator cs = [cs] := by
  induction cs with
  | nil => rfl
  | cons c rest ih =>
    rw [List.mem_cons, not_or] at h
    rw [pieces, if_neg (Ne.symm h.1), ih h.2]

theorem pieces_append {separator : Char} {front : List Char} (h : separator ∉ front)
    (back : List Char) :
    pieces separator (front ++ separator :: back) = front :: pieces separator back := by
  induction front with
  | nil => rw [List.nil_append, pieces, if_pos rfl]
  | cons c front ih =>
    rw [List.mem_cons, not_or] at h
    rw [List.cons_append, pieces, if_neg (Ne.symm h.1), ih h.2]

/-- **Texts are found again between their separators.** -/
theorem pieces_intercalate {mark : String} {separator : Char} (single : mark.toList = [separator])
    {texts : List String} (present : texts ≠ [])
    (apart : ∀ text ∈ texts, separator ∉ text.toList) :
    pieces separator (String.intercalate mark texts).toList = texts.map String.toList := by
  induction texts with
  | nil => exact absurd rfl present
  | cons text texts ih =>
    obtain ⟨first, later⟩ := List.forall_mem_cons.1 apart
    cases texts with
    | nil => simpa using pieces_of_not_mem first
    | cons next texts =>
      have cut : (String.intercalate mark (text :: next :: texts)).toList
          = text.toList ++ separator :: (String.intercalate mark (next :: texts)).toList := by
        rw [String.intercalate_cons_cons, String.toList_append, String.toList_append, single,
          List.append_assoc, List.singleton_append]
      rw [cut, pieces_append first, ih (List.cons_ne_nil _ _) later]
      rfl

/-- A character of the whole is one of a separator or of a text. -/
theorem mem_intercalate {mark : String} {texts : List String} {c : Char}
    (h : c ∈ (mark.intercalate texts).toList) :
    c ∈ mark.toList ∨ ∃ text ∈ texts, c ∈ text.toList := by
  induction texts with
  | nil => simp at h
  | cons text texts ih =>
    cases texts with
    | nil => exact .inr ⟨text, by simp, by simpa using h⟩
    | cons next texts =>
      rw [String.intercalate_cons_cons, String.toList_append, String.toList_append,
        List.mem_append, List.mem_append] at h
      obtain (here | separates) | later := h
      · exact .inr ⟨text, List.mem_cons_self, here⟩
      · exact .inl separates
      · exact (ih later).imp_right fun ⟨t, ht, hc⟩ => ⟨t, List.mem_cons_of_mem text ht, hc⟩

/-- The first of the texts between separators, and what the others make up. -/
theorem intercalate_cons_inj {mark : String} {c : Char} {more : List Char}
    (begins : mark.toList = c :: more) {text text' : String} {texts texts' : List String}
    (first : c ∉ text.toList) (first' : c ∉ text'.toList)
    (h : mark.intercalate (text :: texts) = mark.intercalate (text' :: texts')) :
    text = text' ∧ (texts = [] ↔ texts' = [])
      ∧ mark.intercalate texts = mark.intercalate texts' := by
  have cut (text next : String) (texts : List String) :
      (mark.intercalate (text :: next :: texts)).toList
        = text.toList ++ c :: (more ++ (mark.intercalate (next :: texts)).toList) := by
    rw [String.intercalate_cons_cons, String.toList_append, String.toList_append, begins,
      List.append_assoc, List.cons_append]
  have chars := congrArg String.toList h
  cases texts with
  | nil =>
    cases texts' with
    | nil => exact ⟨by simpa using h, .rfl, rfl⟩
    | cons next' texts' =>
      rw [String.intercalate_singleton, cut] at chars
      exact absurd (chars ▸ List.mem_append_right _ List.mem_cons_self) first
  | cons next texts =>
    cases texts' with
    | nil =>
      rw [String.intercalate_singleton, cut] at chars
      exact absurd (chars ▸ List.mem_append_right _ List.mem_cons_self) first'
    | cons next' texts' =>
      rw [cut, cut] at chars
      obtain ⟨same, rest⟩ := append_cons_inj_of_notMem_left first first' chars
      exact ⟨String.toList_inj.1 same, by simp,
        String.toList_inj.1 (List.append_cancel_left rest)⟩

/-- **Different texts make different texts**, if the separator begins with a character that is in
none of them. -/
theorem intercalate_inj {mark : String} {c : Char} {more : List Char}
    (begins : mark.toList = c :: more) {texts texts' : List String}
    (apart : ∀ text ∈ texts, c ∉ text.toList) (apart' : ∀ text ∈ texts', c ∉ text.toList)
    (none : texts = [] ↔ texts' = []) (h : mark.intercalate texts = mark.intercalate texts') :
    texts = texts' := by
  induction texts generalizing texts' with
  | nil => exact (none.1 rfl).symm
  | cons text texts ih =>
    cases texts' with
    | nil => exact none.2 rfl
    | cons text' texts' =>
      obtain ⟨first, later⟩ := List.forall_mem_cons.1 apart
      obtain ⟨first', later'⟩ := List.forall_mem_cons.1 apart'
      obtain ⟨rfl, none, rest⟩ := intercalate_cons_inj begins first first' h
      rw [ih later later' none rest]

end FuzzBundle.Text
