/-
  FuzzBundle.Proofs.ListReading — reading lists with separators.

  A reader takes something off the front of its input and gives what is left. `readListed` reads
  items with a separator between them, `readEnclosed` reads such a list up to a closing symbol. If
  every item is read where a separator or the end of the list may follow, the list is read. What is
  read need not be what was written: `value` says what a written item is read as.

  Main statements: `append_cons_inj_of_notMem_left`, `append_cons_inj_of_notMem_right`,
  `readListed_intercalate`, `readEnclosed_intercalate`.
-/
import Mathlib.Data.List.Basic

namespace FuzzBundle

variable {τ α β : Type}

/-- Reads something off the front and gives what is left. -/
abbrev Reader (τ α : Type) := List τ → Option (α × List τ)

/-- A written list begins with its first item. -/
theorem intercalate_eq_append (separator ts : List τ) (more : List (List τ)) (rest : List τ) :
    ∃ rest', separator.intercalate (ts :: more) ++ rest = ts ++ rest' := by
  cases more with
  | nil => exact ⟨rest, by rw [List.intercalate_singleton]⟩
  | cons us more =>
    rw [List.intercalate_cons_cons, List.append_assoc, List.append_assoc]
    exact ⟨_, rfl⟩

/-- A list is shorter than it is large. -/
theorem length_lt_sizeOf [SizeOf α] (items : List α) : items.length < sizeOf items := by
  induction items with
  | nil => simp
  | cons a items ih =>
    rw [List.length_cons, List.cons.sizeOf_spec]
    omega

/-- A run of items of one kind ends where the next item is of another kind. -/
theorem takeWhile_append_ends {p : τ → Bool} {run rest : List τ} (h : run.all p = true)
    (ends : rest.head?.any p = false) : (run ++ rest).takeWhile p = run := by
  rw [List.takeWhile_append_of_pos (List.all_eq_true.1 h)]
  cases rest with
  | nil => simp
  | cons t rest => simp [show p t = false from ends]

theorem dropWhile_append_ends {p : τ → Bool} {run rest : List τ} (h : run.all p = true)
    (ends : rest.head?.any p = false) : (run ++ rest).dropWhile p = rest := by
  rw [List.dropWhile_append_of_pos (List.all_eq_true.1 h)]
  cases rest with
  | nil => simp
  | cons t rest => simp [show p t = false from ends]

variable [DecidableEq τ]

/-- What stands in front of the first separator, and what stands behind it. -/
theorem append_cons_inj_of_notMem_left {c : τ} {xs xs' ys ys' : List τ} (hx : c ∉ xs)
    (hx' : c ∉ xs') (h : xs ++ c :: ys = xs' ++ c :: ys') : xs = xs' ∧ ys = ys' := by
  have front (us vs : List τ) (hu : c ∉ us) : (us ++ c :: vs).takeWhile (· ≠ c) = us :=
    takeWhile_append_ends (by simpa using fun t ht => ne_of_mem_of_not_mem ht hu) (by simp)
  have same : xs = xs' := by rw [← front xs ys hx, h, front xs' ys' hx']
  subst same
  exact ⟨rfl, (List.cons_inj_right c).1 (List.append_cancel_left h)⟩

/-- What stands in front of the last separator, and what stands behind it. -/
theorem append_cons_inj_of_notMem_right {c : τ} {xs xs' ys ys' : List τ} (hy : c ∉ ys)
    (hy' : c ∉ ys') (h : xs ++ c :: ys = xs' ++ c :: ys') : xs = xs' ∧ ys = ys' := by
  have reversed := congrArg List.reverse h
  simp only [List.reverse_append, List.reverse_cons, List.append_assoc,
    List.singleton_append] at reversed
  obtain ⟨back, front⟩ := append_cons_inj_of_notMem_left (by simpa using hy) (by simpa using hy')
    reversed
  exact ⟨List.reverse_injective front, List.reverse_injective back⟩

/-- Reads one item or more, with separators between them. -/
def readListed (separator : List τ) (read : Reader τ α) : Nat → Reader τ (α × List α)
  | 0, _ => none
  | fuel + 1, ts =>
    (read ts).bind fun (a, ts) =>
      match ts.dropPrefix? separator with
      | some ts =>
        (readListed separator read fuel ts).map fun (items, ts) => ((a, items.1 :: items.2), ts)
      | none => some ((a, []), ts)

/-- Reads a list, empty or not, up to and with a closing symbol. -/
def readEnclosed (separator : List τ) (close : τ) (read : Reader τ α) (fuel : Nat) :
    Reader τ (List α)
  | [] => none
  | t :: ts =>
    if t = close then some ([], ts)
    else
      match readListed separator read fuel (t :: ts) with
      | some ((a, more), t :: ts) => if t = close then some (a :: more, ts) else none
      | _ => none

theorem dropPrefix?_self_append (start rest : List τ) :
    (start ++ rest).dropPrefix? start = some rest :=
  List.dropPrefix?_eq_some_iff.2 ⟨start, rfl, beq_self_eq_true start⟩

/-- Reading a list of written items, each of which is read where `Ends` holds of what follows. -/
theorem readListed_intercalate {read : Reader τ β} (separator : List τ) (written : α → List τ)
    (value : α → β) (Ends : List τ → Prop) (goesOn : ∀ ts, Ends (separator ++ ts)) (fuel : Nat)
    (a : α) (more : List α)
    (each : ∀ b ∈ a :: more, ∀ rest, Ends rest → read (written b ++ rest) = some (value b, rest))
    (enough : more.length < fuel) {rest : List τ} (ends : Ends rest)
    (last : rest.dropPrefix? separator = none) :
    readListed separator read fuel (separator.intercalate ((a :: more).map written) ++ rest)
      = some ((value a, more.map value), rest) := by
  induction more generalizing a fuel with
  | nil =>
    obtain ⟨fuel, rfl⟩ : ∃ k, fuel = k + 1 := ⟨fuel - 1, by omega⟩
    rw [List.map_cons, List.map_nil, List.intercalate_singleton, readListed,
      each a List.mem_cons_self rest ends, Option.bind_some]
    simp only [last, List.map_nil]
  | cons b more ih =>
    obtain ⟨fuel, rfl⟩ : ∃ k, fuel = k + 1 := ⟨fuel - 1, by omega⟩
    have tail := ih fuel b (fun c hc => each c (List.mem_cons_of_mem a hc))
      (by rw [List.length_cons] at enough; omega)
    rw [List.map_cons, List.map_cons, List.intercalate_cons_cons, List.append_assoc,
      List.append_assoc, ← List.map_cons, readListed, each a List.mem_cons_self _ (goesOn _),
      Option.bind_some]
    rw [List.map_cons] at tail
    simp only [dropPrefix?_self_append, List.map_cons, tail, Option.map_some]

/-- Reading a list up to its closing symbol, with which no item begins. -/
theorem readEnclosed_intercalate {read : Reader τ β} (separator : List τ) (close : τ)
    (written : α → List τ) (value : α → β) (Ends : List τ → Prop)
    (goesOn : ∀ ts, Ends (separator ++ ts)) (closes : ∀ ts, Ends (close :: ts))
    (other : ∀ ts, (close :: ts).dropPrefix? separator = none) (fuel : Nat) (items : List α)
    (begins : ∀ a ∈ items, ∃ t ts, written a = t :: ts ∧ t ≠ close)
    (each : ∀ b ∈ items, ∀ rest, Ends rest → read (written b ++ rest) = some (value b, rest))
    (enough : items.length ≤ fuel) (rest : List τ) :
    readEnclosed separator close read fuel
        (separator.intercalate (items.map written) ++ close :: rest)
      = some (items.map value, rest) := by
  cases items with
  | nil => simp [readEnclosed]
  | cons a more =>
    have list := readListed_intercalate separator written value Ends goesOn fuel a more each enough
      (closes rest) (other rest)
    obtain ⟨t, ts, spelled, apart⟩ := begins a List.mem_cons_self
    -- the list begins with its first item, hence not with the closing symbol
    obtain ⟨us, first⟩ :=
      intercalate_eq_append separator (written a) (more.map written) (close :: rest)
    rw [← List.map_cons, spelled, List.cons_append] at first
    rw [first] at list ⊢
    rw [readEnclosed, if_neg apart, list]
    simp

end FuzzBundle
