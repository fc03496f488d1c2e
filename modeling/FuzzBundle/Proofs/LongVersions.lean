/-
  FuzzBundle.Proofs.LongVersions — the version in front of a commit.

  Two readers look at the text by which a compiler is named. One reads a semantic version and drops
  its build metadata, the other takes what stands in front of the first commit (`CommitAt`). They
  agree: where both read something, what the second one takes is read by the first one as the
  version of the whole text.

  The reason is that a text which is a semantic version has at most one plus sign, the one before
  its build metadata (`ofChars?_cut`), so that a commit can be named nowhere else. The second reader
  goes through the text with the characters passed so far in its hand; that no commit is named at
  any of the places passed is what each of its steps keeps (`NonePassed.cons`).

  Main statement: `readers_agree`.
-/
import Mathlib.Data.List.TakeWhile
import FuzzBundle.Proofs.ListReading
import FuzzBundle.Version

namespace FuzzBundle.Version

/-! ## §1. What a version is made of -/

/-- A number is some digits, and they are the same number before anything that goes on with no
digit. -/
theorem number?_eq_some {cs rest : List Char} {n : Nat} (h : number? cs = some (n, rest)) :
    ∃ digits : List Char, cs = digits ++ rest ∧ digits.all Char.isDigit = true
      ∧ ∀ rest' : List Char, rest'.head?.any Char.isDigit = false →
        number? (digits ++ rest') = some (n, rest') := by
  have digits := List.all_takeWhile (p := Char.isDigit) (l := cs)
  unfold number? at h
  dsimp only at h
  split at h
  · exact absurd h nofun
  · next plain =>
    obtain ⟨m, read, same⟩ := Option.map_eq_some_iff.1 h
    cases same
    refine ⟨cs.takeWhile Char.isDigit, List.takeWhile_append_dropWhile.symm, digits, ?_⟩
    intro rest' ends
    unfold number?
    dsimp only
    rw [takeWhile_append_ends digits ends, dropWhile_append_ends digits ends]
    split
    · next zero => exact absurd zero (plain _ _)
    · rw [read, Option.map_some]

theorem isIdentifierChar_of_isDigit {c : Char} (h : c.isDigit = true) :
    isIdentifierChar c = true := by
  simp [isIdentifierChar, Char.isAlphanum, h]

/-- A character that may stand in a version outside its numbers: of an identifier, or a point. -/
def IsDotted (c : Char) : Prop := isIdentifierChar c = true ∨ c = '.'

theorem IsDotted.ne_plus {c : Char} (h : IsDotted c) : c ≠ '+' := by
  rintro rfl
  exact absurd h (by unfold IsDotted; decide)

theorem mem_joinPieces {separator c : Char} {parts : List (List Char)}
    (h : c ∈ Text.joinPieces separator parts) : c = separator ∨ ∃ part ∈ parts, c ∈ part := by
  induction parts with
  | nil => exact absurd h (List.not_mem_nil)
  | cons part more ih =>
    cases more with
    | nil => exact .inr ⟨part, List.mem_cons_self, h⟩
    | cons next more =>
      rw [Text.joinPieces, List.mem_append, List.mem_cons] at h
      rcases h with here | rfl | later
      · exact .inr ⟨part, List.mem_cons_self, here⟩
      · exact .inl rfl
      · obtain separates | ⟨p, hp, hc⟩ := ih later
        · exact .inl separates
        · exact .inr ⟨p, List.mem_cons_of_mem _ hp, hc⟩

theorem isDotted_of_areIdentifiers {strict : Bool} {cs : List Char}
    (h : areIdentifiers strict cs = true) : ∀ c ∈ cs, IsDotted c := by
  intro c hc
  rw [← Text.joinPieces_pieces '.' cs] at hc
  rcases mem_joinPieces hc with point | ⟨part, hp, inside⟩
  · exact .inr point
  · have identifier := List.all_eq_true.1 h part hp
    simp only [isIdentifier, Bool.and_eq_true] at identifier
    exact .inl (List.all_eq_true.1 identifier.1.2 c inside)

/-- Whether what begins at a plus sign, if anything does, is build metadata. -/
def metadataInOrder : List Char → Bool
  | [] => true
  | _ :: metadata => areIdentifiers false metadata

theorem suffix?_eq (cs : List Char) :
    suffix? cs = match cs.takeWhile (· ≠ '+') with
      | [] => if metadataInOrder (cs.dropWhile (· ≠ '+')) then some [] else none
      | '-' :: preRelease =>
        if areIdentifiers true preRelease && metadataInOrder (cs.dropWhile (· ≠ '+')) then
          some preRelease
        else none
      | _ => none := by
  unfold suffix?
  cases cs.dropWhile (· ≠ '+') <;> rfl

/-- What follows the numbers of a version: nothing or a pre-release up to the first plus sign, and
build metadata from there on. -/
theorem suffix?_eq_some_iff {cs preRelease : List Char} :
    suffix? cs = some preRelease ↔
      (cs.takeWhile (· ≠ '+') = [] ∧ preRelease = []
          ∨ cs.takeWhile (· ≠ '+') = '-' :: preRelease ∧ areIdentifiers true preRelease = true)
        ∧ metadataInOrder (cs.dropWhile (· ≠ '+')) = true := by
  rw [suffix?_eq]
  generalize metadataInOrder (cs.dropWhile (· ≠ '+')) = inOrder
  split
  · next release =>
    rw [release]
    cases inOrder <;> simp
  · next found release =>
    rw [release]
    cases inOrder with
    | false => simp
    | true =>
      simp only [Bool.and_true, Option.ite_none_right_eq_some, Option.some.injEq, reduceCtorEq,
        false_and, false_or, List.cons.injEq, true_and, and_true]
      constructor
      · rintro ⟨dotted, rfl⟩
        exact ⟨rfl, dotted⟩
      · rintro ⟨rfl, dotted⟩
        exact ⟨dotted, rfl⟩
  · next nothing sign =>
    refine iff_of_false nofun ?_
    rintro ⟨⟨empty, -⟩ | ⟨release, -⟩, -⟩
    · exact nothing empty
    · exact sign _ release

/-- The pre-release is the same without the build metadata. -/
theorem suffix?_takeWhile {cs preRelease : List Char} (h : suffix? cs = some preRelease) :
    suffix? (cs.takeWhile (· ≠ '+')) = some preRelease := by
  have all := List.all_takeWhile (p := fun c : Char => decide (c ≠ '+')) (l := cs)
  have ends : ([] : List Char).head?.any (fun c => decide (c ≠ '+')) = false := rfl
  have alone := takeWhile_append_ends all ends
  have nothing := dropWhile_append_ends all ends
  rw [List.append_nil] at alone nothing
  rw [suffix?_eq_some_iff] at h ⊢
  rw [alone, nothing]
  exact ⟨h.1, rfl⟩

/-- What follows the numbers of a version is dotted but for one plus sign. -/
theorem suffix?_dotted {cs preRelease : List Char} (h : suffix? cs = some preRelease) :
    (∀ c ∈ cs.takeWhile (· ≠ '+'), IsDotted c)
      ∧ ∀ c ∈ (cs.dropWhile (· ≠ '+')).tail, IsDotted c := by
  obtain ⟨release, build⟩ := suffix?_eq_some_iff.1 h
  constructor
  · rcases release with ⟨nothing, -⟩ | ⟨signed, identifiers⟩
    · rw [nothing]
      exact List.forall_mem_nil _
    · rw [signed, List.forall_mem_cons]
      exact ⟨.inl (by decide), isDotted_of_areIdentifiers identifiers⟩
  · cases metadata : cs.dropWhile (fun c => decide (c ≠ '+')) with
    | nil => exact List.forall_mem_nil _
    | cons plus metadata' =>
      rw [metadata] at build
      exact isDotted_of_areIdentifiers build

/-- No digit goes on after the numbers of a version. -/
theorem head?_of_suffix? {cs preRelease : List Char} (h : suffix? cs = some preRelease) :
    cs.head?.any Char.isDigit = false := by
  cases cs with
  | nil => rfl
  | cons c rest =>
    have first : c = '+' ∨ c = '-' := by
      by_cases plus : c = '+'
      · exact .inl plus
      · rw [suffix?_eq_some_iff, List.takeWhile_cons_of_pos (by simpa using plus)] at h
        rcases h.1 with ⟨none, -⟩ | ⟨sign, -⟩
        · exact absurd none nofun
        · exact .inr (List.cons.inj sign).1
    rcases first with rfl | rfl <;> rfl

theorem afterPoint?_eq_some_iff {cs rest : List Char} :
    afterPoint? cs = some rest ↔ cs = '.' :: rest := by
  unfold afterPoint?
  split <;> simp_all

/-- A version is its numbers and what follows them, and with another suffix of the same pre-release
they are the same version. -/
theorem ofChars?_eq_some {cs : List Char} {v : Version} (h : ofChars? cs = some v) :
    ∃ numbers suffix, cs = numbers ++ suffix
      ∧ (∀ c ∈ numbers, IsDotted c)
      ∧ suffix? suffix = some v.preRelease
      ∧ ∀ suffix', suffix? suffix' = some v.preRelease →
          ofChars? (numbers ++ suffix') = some v := by
  unfold ofChars? at h
  simp only [Option.bind_eq_bind, Option.bind_eq_some_iff, Prod.exists, afterPoint?_eq_some_iff,
    Option.pure_def, Option.some.injEq] at h
  obtain ⟨major, _, hmajor, rest, rfl, minor, _, hminor, rest', rfl, patch, suffix, hpatch,
    preRelease, hsuffix, rfl⟩ := h
  obtain ⟨a, rfl, digitsA, readA⟩ := number?_eq_some hmajor
  obtain ⟨b, rfl, digitsB, readB⟩ := number?_eq_some hminor
  obtain ⟨c, rfl, digitsC, readC⟩ := number?_eq_some hpatch
  refine ⟨a ++ '.' :: (b ++ '.' :: c), suffix, by simp, ?_, hsuffix, ?_⟩
  · intro d hd
    have number {digits : List Char} (h : digits.all Char.isDigit = true) (here : d ∈ digits) :
        IsDotted d := .inl (isIdentifierChar_of_isDigit (List.all_eq_true.1 h d here))
    simp only [List.mem_append, List.mem_cons] at hd
    rcases hd with here | rfl | here | rfl | here
    · exact number digitsA here
    · exact .inr rfl
    · exact number digitsB here
    · exact .inr rfl
    · exact number digitsC here
  · intro suffix' same
    unfold ofChars?
    simp only [List.append_assoc, List.cons_append]
    rw [readA _ rfl]
    simp only [Option.bind_eq_bind, Option.bind_some, afterPoint?]
    rw [readB _ rfl]
    simp only [Option.bind_some]
    rw [readC _ (head?_of_suffix? same)]
    simp only [Option.bind_some, same, Option.pure_def]

/-- **Where there is a plus sign in a version, what stands in front of it is the same version.** -/
theorem ofChars?_cut {before after : List Char} {v : Version}
    (h : ofChars? (before ++ '+' :: after) = some v) :
    ofChars? before = some v ∧ ∀ c ∈ before, IsDotted c := by
  obtain ⟨numbers, suffix, cut, dotted, read, same⟩ := ofChars?_eq_some h
  obtain ⟨release, build⟩ := suffix?_dotted read
  have front : ∀ c ∈ numbers ++ suffix.takeWhile (· ≠ '+'), IsDotted c := by
    simpa only [List.forall_mem_append] using ⟨dotted, release⟩
  have noPlus : '+' ∉ numbers ++ suffix.takeWhile (· ≠ '+') := fun h => (front _ h).ne_plus rfl
  -- the numbers and the pre-release have no plus sign, so that it is the one of the metadata
  rw [← List.takeWhile_append_dropWhile (p := fun c => decide (c ≠ '+')) (l := suffix),
    ← List.append_assoc] at cut
  cases metadata : suffix.dropWhile (fun c => decide (c ≠ '+')) with
  | nil =>
    rw [metadata, List.append_nil] at cut
    exact absurd (cut ▸ List.mem_append_right _ List.mem_cons_self) noPlus
  | cons plus build' =>
    rw [metadata] at cut build
    have sign := List.head?_dropWhile_not (fun c => decide (c ≠ '+')) suffix
    rw [metadata] at sign
    obtain rfl : plus = '+' := by simpa using sign
    have noneBehind : '+' ∉ build' := fun h => (build _ h).ne_plus rfl
    obtain ⟨rfl, -, -⟩ := (List.append_cons_inj_of_notMem noPlus noneBehind).1 cut.symm
    exact ⟨same _ (suffix?_takeWhile read), front⟩

/-! ## §2. The first commit -/

/-- A commit is named here: `+commit.` and a digit or a small letter. -/
def NamesCommit (cs : List Char) : Prop :=
  ∃ c rest, cs = "+commit.".toList ++ c :: rest ∧ ('0' ≤ c ∧ c ≤ '9' ∨ 'a' ≤ c ∧ c ≤ 'z')

/-- A commit is named at a place of a text with at least one character in front. -/
def CommitAt (cs : List Char) (place : Nat) : Prop := 0 < place ∧ NamesCommit (cs.drop place)

/-- The first place of a text where a commit is named with at least one character in front. -/
structure FirstCommit (cs : List Char) (place : Nat) : Prop where
  named : CommitAt cs place
  first : ∀ earlier < place, ¬ CommitAt cs earlier

theorem startsCommit_iff {cs : List Char} : startsCommit cs = true ↔ NamesCommit cs := by
  have kind (c : Char) :
      (c.isDigit || ('a' ≤ c && c ≤ 'z')) = true ↔ '0' ≤ c ∧ c ≤ '9' ∨ 'a' ≤ c ∧ c ≤ 'z' := by
    simp only [Bool.or_eq_true, Bool.and_eq_true, decide_eq_true_eq]
    exact or_congr_left (by simp only [Char.isDigit, Bool.and_eq_true, decide_eq_true_eq]; rfl)
  unfold startsCommit NamesCommit
  split
  · next c rest dropped =>
    rw [Text.dropStart?_eq_some_iff] at dropped
    subst dropped
    rw [kind]
    constructor
    · exact fun h => ⟨c, rest, rfl, h⟩
    · rintro ⟨c', rest', same, h⟩
      rw [(List.cons.inj (List.append_cancel_left same)).1]
      exact h
  · next none =>
    refine iff_of_false Bool.false_ne_true ?_
    rintro ⟨c, rest, rfl, -⟩
    exact none c rest (Text.dropStart?_eq_some_iff.2 rfl)

/-- No commit is named at any of the places that were passed; `passed` has the last one first. -/
def NonePassed (passed rest : List Char) : Prop :=
  ∀ place < passed.length, ¬ CommitAt (passed.reverse ++ rest) place

theorem nonePassed_nil (cs : List Char) : NonePassed [] cs :=
  fun _ inside => absurd inside (Nat.not_lt_zero _)

variable {passed rest : List Char}

theorem reverse_cons_append (c : Char) (passed rest : List Char) :
    (c :: passed).reverse ++ rest = passed.reverse ++ c :: rest := by
  rw [List.reverse_cons, List.append_assoc, List.singleton_append]

/-- One more character is passed, where no commit is named in front of it. -/
theorem NonePassed.cons {c : Char} (h : NonePassed passed (c :: rest))
    (here : ¬(¬ passed.isEmpty = true ∧ startsCommit (c :: rest) = true)) :
    NonePassed (c :: passed) rest := by
  intro place bound named
  rw [reverse_cons_append] at named
  rcases Nat.lt_succ_iff_lt_or_eq.1 bound with earlier | rfl
  · exact h place earlier named
  · obtain ⟨inside, names⟩ := named
    rw [← List.length_reverse, List.drop_left, ← startsCommit_iff] at names
    exact here ⟨by simpa [List.length_pos_iff] using inside, names⟩

theorem firstCommit_of_beforeCommit? {before : List Char} (clear : NonePassed passed rest)
    (h : beforeCommit? passed rest = some before) :
    ∃ place, FirstCommit (passed.reverse ++ rest) place
      ∧ before = (passed.reverse ++ rest).take place := by
  induction rest generalizing passed with
  | nil => exact absurd h nofun
  | cons c rest ih =>
    rw [beforeCommit?] at h
    split at h
    · next found =>
      cases h
      refine ⟨passed.length, ⟨⟨?_, ?_⟩, clear⟩, ?_⟩
      · simpa [List.length_pos_iff] using found.1
      · rw [← List.length_reverse, List.drop_left]
        exact startsCommit_iff.1 found.2
      · rw [← List.length_reverse, List.take_left]
    · next here =>
      split at h
      · exact absurd h nofun
      · rw [← reverse_cons_append]
        exact ih (clear.cons here) h

theorem not_commitAt_of_beforeCommit? (line : '\n' ∉ rest) (clear : NonePassed passed rest)
    (h : beforeCommit? passed rest = none) (place : Nat) :
    ¬ CommitAt (passed.reverse ++ rest) place := by
  induction rest generalizing passed with
  | nil =>
    by_cases inside : place < passed.length
    · exact clear place inside
    · rintro ⟨-, c, rest, behind, -⟩
      rw [List.append_nil, List.drop_eq_nil_of_le (by simpa using inside)] at behind
      exact absurd behind nofun
  | cons c rest ih =>
    rw [List.mem_cons, not_or] at line
    rw [beforeCommit?] at h
    split at h
    · exact absurd h nofun
    · next here =>
      rw [if_neg (Ne.symm line.1)] at h
      rw [← reverse_cons_append]
      exact ih line.2 (clear.cons here) h

/-- What is taken stands in front of the first commit. -/
theorem firstCommit_of_ofLongVersion? {l p : String} (h : ofLongVersion? l = some p) :
    ∃ place, FirstCommit (Text.trim l).toList place
      ∧ p.toList = (Text.trim l).toList.take place := by
  obtain ⟨before, found, rfl⟩ := Option.map_eq_some_iff.1 h
  rw [String.toList_ofList]
  generalize (Text.trim l).toList = cs at found ⊢
  exact firstCommit_of_beforeCommit? (nonePassed_nil cs) found

theorem FirstCommit.unique {cs : List Char} {i j : Nat} (hi : FirstCommit cs i)
    (hj : FirstCommit cs j) : i = j := by
  rcases Nat.lt_trichotomy i j with lt | rfl | lt
  · exact absurd hi.named (hj.first i lt)
  · rfl
  · exact absurd hj.named (hi.first j lt)

theorem NamesCommit.append {cs : List Char} (h : NamesCommit cs) (more : List Char) :
    NamesCommit (cs ++ more) := by
  obtain ⟨c, rest, rfl, kind⟩ := h
  exact ⟨c, rest ++ more, by rw [List.append_assoc, List.cons_append], kind⟩

/-- In front of the first commit none is named. -/
theorem FirstCommit.not_commitAt_take {cs : List Char} {place : Nat} (h : FirstCommit cs place)
    (i : Nat) : ¬ CommitAt (cs.take place) i := by
  rintro ⟨inside, named⟩
  have bound : i < (cs.take place).length := by
    obtain ⟨c, rest, named, -⟩ := named
    have some : 0 < ((cs.take place).drop i).length := by rw [named]; simp
    rw [List.length_drop] at some
    omega
  have early : i < place := Nat.lt_of_lt_of_le bound (List.length_take_le ..)
  have whole : cs.drop i = (cs.take place).drop i ++ cs.drop place := by
    rw [← List.drop_append_of_le_length (Nat.le_of_lt bound), List.take_append_drop]
  exact h.first i early ⟨inside, whole ▸ named.append _⟩

/-- Where no line ends, nothing is taken exactly if no commit is named. -/
theorem ofLongVersion?_eq_none_iff {l : String} (line : '\n' ∉ (Text.trim l).toList) :
    ofLongVersion? l = none ↔ ∀ place, ¬ CommitAt (Text.trim l).toList place := by
  constructor
  · intro h
    have found := Option.map_eq_none_iff.1 h
    generalize (Text.trim l).toList = cs at found line ⊢
    exact not_commitAt_of_beforeCommit? line (nonePassed_nil cs) found
  · intro none
    cases h : ofLongVersion? l with
    | none => rfl
    | some p =>
      obtain ⟨place, first, -⟩ := firstCommit_of_ofLongVersion? h
      exact absurd first.named (none place)

/-- Where no line ends, what is taken is what stands in front of the first commit. -/
theorem ofLongVersion?_eq_some_iff {l p : String} (line : '\n' ∉ (Text.trim l).toList) :
    ofLongVersion? l = some p ↔ ∃ place, FirstCommit (Text.trim l).toList place
      ∧ p.toList = (Text.trim l).toList.take place := by
  constructor
  · exact firstCommit_of_ofLongVersion?
  · rintro ⟨place, first, taken⟩
    cases h : ofLongVersion? l with
    | none => exact absurd first.named ((ofLongVersion?_eq_none_iff line).1 h place)
    | some q =>
      obtain ⟨place', first', taken'⟩ := firstCommit_of_ofLongVersion? h
      obtain rfl := first.unique first'
      rw [String.toList_inj.1 (taken'.trans taken.symm)]

/-! ## §3. The two readers -/

theorem IsDotted.not_blank {c : Char} (h : IsDotted c) : Text.isBlank c = false := by
  refine Text.isBlank_eq_false_of_visible ?_
  rcases h with h | rfl
  · change ((decide (c.val ≥ 65 ∧ c.val ≤ 90) || c.val ≥ 97 && c.val ≤ 122
      || c.val ≥ 48 && c.val ≤ 57) || c == '-') = true at h
    simp only [Bool.or_eq_true, Bool.and_eq_true, decide_eq_true_eq, beq_iff_eq, ge_iff_le,
      UInt32.le_iff_toNat_le] at h
    change (((65 ≤ c.toNat ∧ c.toNat ≤ 90) ∨ (97 ≤ c.toNat ∧ c.toNat ≤ 122)) ∨
      (48 ≤ c.toNat ∧ c.toNat ≤ 57)) ∨ c = '-' at h
    rcases h with h | rfl
    · omega
    · decide
  · decide

/-- A text without white space is not trimmed. -/
theorem trim_of_not_blank {s : String} (h : ∀ c ∈ s.toList, Text.isBlank c = false) :
    Text.trim s = s := by
  have keep {cs : List Char} (h : ∀ c ∈ cs, Text.isBlank c = false) :
      cs.dropWhile Text.isBlank = cs := by
    cases cs with
    | nil => rfl
    | cons c cs => rw [List.dropWhile_cons_of_neg (by simp [h c List.mem_cons_self])]
  rw [Text.trim, Text.trimChars, Text.dropEndWhile, keep h,
    keep fun c hc => h c (List.mem_reverse.1 hc), List.reverse_reverse, String.ofList_toList]

theorem mem_of_mem_trim {c : Char} {s : String} (h : c ∈ (Text.trim s).toList) : c ∈ s.toList := by
  rw [Text.trim, String.toList_ofList, Text.trimChars, Text.dropEndWhile, List.mem_reverse] at h
  exact (List.dropWhile_sublist _).subset (List.mem_reverse.1 ((List.dropWhile_sublist _).subset h))

/-- **What is read of a whole text is read of what stands in front of its first commit.** -/
theorem parse?_of_ofLongVersion? {l p : String} {v : Version} (h : parse? l = some v)
    (taken : ofLongVersion? l = some p) : parse? p = some v := by
  obtain ⟨place, ⟨⟨-, c, rest, named, -⟩, -⟩, front⟩ := firstCommit_of_ofLongVersion? taken
  have split : (Text.trim l).toList = p.toList ++ '+' :: ("commit.".toList ++ c :: rest) := by
    rw [front]
    conv_lhs => rw [← List.take_append_drop place (Text.trim l).toList, named]
    rfl
  -- the letters in front are those of the part, since the sign behind it is none
  have dropped : (Text.trim l).toList.dropWhile (· == 'v')
      = p.toList.dropWhile (· == 'v') ++ '+' :: ("commit.".toList ++ c :: rest) := by
    rw [split, List.dropWhile_append]
    split
    · next none => rw [List.isEmpty_iff.1 none]; rfl
    · rfl
  rw [parse?, dropped] at h
  obtain ⟨same, dotted⟩ := ofChars?_cut h
  have visible : ∀ d ∈ p.toList, Text.isBlank d = false := by
    intro d hd
    rw [← List.takeWhile_append_dropWhile (p := (· == 'v')) (l := p.toList), List.mem_append] at hd
    rcases hd with letter | body
    · have letter := List.mem_takeWhile_imp letter
      rw [beq_iff_eq.1 letter]
      rfl
    · exact (dotted d body).not_blank
  rw [parse?, trim_of_not_blank visible]
  exact same

/-- **The two readers of versions agree.** If a text is a version and a version in front of a commit
is taken from it, then that is the same version, and no commit is named in it. On one line, nothing
is taken exactly if no commit is named with something in front of it, and otherwise it is what
stands in front of the first such commit. -/
theorem readers_agree (l : String) :
    (∀ v p, parse? l = some v → ofLongVersion? l = some p →
      parse? p = some v ∧ ∀ place, ¬ CommitAt p.toList place)
    ∧ ('\n' ∉ l.toList →
      (ofLongVersion? l = none ↔ ∀ place, ¬ CommitAt (Text.trim l).toList place)
      ∧ ∀ p, ofLongVersion? l = some p ↔ ∃ place, FirstCommit (Text.trim l).toList place
          ∧ p.toList = (Text.trim l).toList.take place) := by
  refine ⟨fun v p read taken => ⟨parse?_of_ofLongVersion? read taken, ?_⟩, fun line => ?_⟩
  · obtain ⟨place, first, front⟩ := firstCommit_of_ofLongVersion? taken
    rw [front]
    exact first.not_commitAt_take
  · have line : '\n' ∉ (Text.trim l).toList := fun h => line (mem_of_mem_trim h)
    exact ⟨ofLongVersion?_eq_none_iff line, fun p => ofLongVersion?_eq_some_iff line⟩

/-- A nightly build with its commit, and a release without one. -/
theorem readers_agree_nightly :
    (parse? " v0.8.20-nightly.1+commit.7dd6d404" = some ⟨0, 8, 20, "nightly.1".toList⟩
        ∧ ofLongVersion? " v0.8.20-nightly.1+commit.7dd6d404" = some "v0.8.20-nightly.1"
        ∧ parse? "v0.8.20-nightly.1" = some ⟨0, 8, 20, "nightly.1".toList⟩)
      ∧ '\n' ∉ "0.8.19".toList ∧ ofLongVersion? "0.8.19" = none
        ∧ ∀ place, ¬ CommitAt (Text.trim "0.8.19").toList place := by
  have read : parse? " v0.8.20-nightly.1+commit.7dd6d404"
      = some ⟨0, 8, 20, "nightly.1".toList⟩ := by decide +kernel
  have taken : ofLongVersion? " v0.8.20-nightly.1+commit.7dd6d404"
      = some "v0.8.20-nightly.1" := by decide +kernel
  have line : '\n' ∉ "0.8.19".toList := by decide +kernel
  have none : ofLongVersion? "0.8.19" = none := by decide +kernel
  exact ⟨⟨read, taken, ((readers_agree _).1 _ _ read taken).1⟩, line, none,
    ((readers_agree _).2 line).1.1 none⟩

end FuzzBundle.Version
