/-
  FuzzBundle.Proofs.PragmaOrder — the order in which a pragma lists its comparators.

  Whether constructors show a visibility is read off the first version that a constraint names, here
  the version of the comparator in front (`Constraint.leading?`). A comparator that is only `0.` and
  a number runs into one without operator right behind it, as both are read without anything between
  them; so what the first one is read as depends on the next one as well (`Comparator.digits`).

  A constraint means the same in any order of its alternatives and of the comparators of each. What
  can come to stand in front in some order are exactly the pairs of `Leads`, and the printed
  constructors are the same for all orders exactly if all of these pairs are read alike.

  Main statement: `orderFree_iff`.
-/
import Mathlib.Data.List.Perm.Basic
import Mathlib.Data.List.TakeWhile
import FuzzBundle.Proofs.ListReading
import FuzzBundle.Proofs.ProjectedFiles

namespace FuzzBundle.Solidity.Pragma

/-! ## §1. Constraints over versions `0.x` -/

/-- The signs that operators are made of. -/
def signs : List Char := ['<', '>', '=', '^', '~']

/-- An operator, which may be left out, in front of a version that begins with `0.`. The tokens say
how it is cut; `version` is what follows `0.`. -/
structure Comparator where
  operator : List Char
  version : List Char
  tokens : List String
  signed : ∀ c ∈ operator, c ∈ signs
  joined : (String.join tokens).toList = operator ++ '0' :: '.' :: version

/-- A comparator as it is read. -/
def Comparator.text (t : Comparator) : List Char := t.operator ++ '0' :: '.' :: t.version

/-- Alternatives, each of them some comparators that all have to hold. -/
abbrev Constraint := List (List Comparator)

namespace Constraint

/-- The tokens of a constraint, with `||` between the alternatives. -/
def tokens (c : Constraint) : List String :=
  ["||"].intercalate (c.map (·.flatMap Comparator.tokens))

/-- A constraint as it is read. -/
def text (c : Constraint) : List Char :=
  ['|', '|'].intercalate (c.map (·.flatMap Comparator.text))

/-- The comparator in front, and the one right behind it that has to hold as well. -/
def leading? : Constraint → Option (Comparator × Option Comparator)
  | [] => none
  | [] :: rest => leading? rest
  | (t :: more) :: _ => some (t, more.head?)

/-- The same alternatives with the same comparators, in any order. -/
def Reordered (c c' : Constraint) : Prop :=
  ∃ between : Constraint, List.Forall₂ List.Perm c between ∧ between.Perm c'

/-- In some order a comparator stands in front, and this one (or none) right behind it. -/
def Leads (c : Constraint) (t : Comparator) (next : Option Comparator) : Prop :=
  ∃ a ∈ c, ∃ rest, a.Perm (t :: (next.toList ++ rest)) ∧ (next = none → rest = [])

end Constraint

/-- The first pragma of a source unit that names the language states a constraint. -/
def States (unit : Node) (c : Constraint) : Prop :=
  ∃ before pragma after, unit.membersOf .pragmaDirective = before ++ pragma :: after
    ∧ (∀ p ∈ before, (p.strings "literals").head? ≠ some "solidity")
    ∧ pragma.strings "literals" = "solidity" :: c.tokens

/-! ## §2. What is read of a constraint -/

/-- The digits of the minor version that a comparator in front is read with. -/
def Comparator.digits (t : Comparator) (next : Option Comparator) : List Char :=
  (t.version ++ (next.map Comparator.text).getD []).takeWhile Char.isDigit

/-- Whether a constraint with this in front is taken for one of a version before 0.7. -/
def Comparator.isOld (t : Comparator) (next : Option Comparator) : Bool :=
  (Text.bounded? Text.word64 (t.digits next)).any (· < 7)

theorem text_eq_flatMap (t : Comparator) : t.tokens.flatMap String.toList = t.text := by
  rw [← String.toList_join, t.joined, Comparator.text]

theorem Constraint.join_tokens (c : Constraint) : (String.join c.tokens).toList = c.text := by
  have alternative (a : List Comparator) :
      (a.flatMap Comparator.tokens).flatMap String.toList = a.flatMap Comparator.text := by
    rw [List.flatMap_assoc]
    exact congrArg (a.flatMap ·) (funext text_eq_flatMap)
  rw [String.toList_join, tokens, text]
  induction c with
  | nil => rfl
  | cons a rest ih =>
    cases rest with
    | nil => simpa using alternative a
    | cons b rest =>
      simp only [List.map_cons, List.intercalate_cons_cons, List.flatMap_append] at ih ⊢
      rw [alternative, ih]
      rfl

theorem afterZeroPoint?_append {front rest : List Char} (h : '0' ∉ front) :
    afterZeroPoint? (front ++ rest) = afterZeroPoint? rest := by
  induction front with
  | nil => rfl
  | cons c front ih =>
    rw [List.mem_cons, not_or] at h
    rw [List.cons_append, afterZeroPoint?]
    · exact ih h.2
    · rintro rest' rfl
      exact absurd rfl h.1

theorem zero_not_mem_operator (t : Comparator) : '0' ∉ t.operator := fun h =>
  absurd (t.signed _ h) (by decide)

theorem afterZeroPoint?_comparator (t : Comparator) (rest : List Char) :
    afterZeroPoint? (t.text ++ rest) = some (t.version ++ rest) := by
  rw [Comparator.text, List.append_assoc, afterZeroPoint?_append (zero_not_mem_operator t)]
  rfl

/-- Nothing behind the first sign that is no digit counts. -/
theorem takeWhile_append_of_exists {cs more : List Char} (h : ∃ c ∈ cs, c.isDigit = false) :
    (cs ++ more).takeWhile Char.isDigit = cs.takeWhile Char.isDigit := by
  obtain ⟨c, hc, sign⟩ := h
  rw [List.takeWhile_append, if_neg]
  intro whole
  have same := (List.takeWhile_prefix (p := Char.isDigit) (l := cs)).eq_of_length whole
  rw [List.takeWhile_eq_self_iff] at same
  exact absurd (same c hc) (by rw [sign]; exact Bool.false_ne_true)

/-- Nothing counts that begins with no digit. -/
theorem takeWhile_append_of_ends {cs tail : List Char}
    (ends : tail.head?.any Char.isDigit = false) :
    (cs ++ tail).takeWhile Char.isDigit = cs.takeWhile Char.isDigit := by
  by_cases digits : cs.all Char.isDigit = true
  · rw [takeWhile_append_ends digits ends, List.takeWhile_eq_self_iff.2 (List.all_eq_true.1 digits)]
  · exact takeWhile_append_of_exists (by simpa using digits)

theorem exists_sign_of_text (t : Comparator) : ∃ c ∈ t.text, c.isDigit = false :=
  ⟨'.', by simp [Comparator.text], rfl⟩

/-- The digits behind the first `0.` of a constraint are those that its first comparator is read
with. -/
theorem minorVersion?_append (t : Comparator) (more : List Comparator) {tail : List Char}
    (ends : tail.head?.any Char.isDigit = false) :
    minorVersion? (t.text ++ (more.flatMap Comparator.text ++ tail))
      = Text.bounded? Text.word64 (t.digits more.head?) := by
  rw [minorVersion?, afterZeroPoint?_comparator, Option.bind_some]
  congr 1
  unfold Comparator.digits
  cases more with
  | nil =>
    rw [List.flatMap_nil, List.nil_append, takeWhile_append_of_ends ends, List.head?_nil,
      Option.map_none, Option.getD_none, List.append_nil]
  | cons u more =>
    obtain ⟨c, hc, sign⟩ := exists_sign_of_text u
    rw [List.flatMap_cons, List.append_assoc, ← List.append_assoc,
      takeWhile_append_of_exists ⟨c, List.mem_append_right _ hc, sign⟩]
    rfl

/-- What is read behind an alternative, given the ones that follow. -/
def Constraint.behind : Constraint → List Char
  | [] => []
  | b :: rest => '|' :: '|' :: text (b :: rest)

theorem Constraint.text_cons (a : List Comparator) (rest : Constraint) :
    text (a :: rest) = a.flatMap Comparator.text ++ behind rest := by
  cases rest with
  | nil => simp [text, behind]
  | cons b rest =>
    rw [text, List.map_cons, List.map_cons, List.intercalate_cons_cons, List.append_assoc]
    rfl

theorem Constraint.minorVersion?_behind (rest : Constraint) :
    minorVersion? (behind rest) = minorVersion? rest.text := by
  cases rest <;> rfl

theorem Constraint.minorVersion?_text (c : Constraint) :
    minorVersion? c.text
      = c.leading?.bind fun lead => Text.bounded? Text.word64 (lead.1.digits lead.2) := by
  induction c with
  | nil => rfl
  | cons a rest ih =>
    rw [text_cons]
    cases a with
    | nil => rw [List.flatMap_nil, List.nil_append, minorVersion?_behind, ih, leading?]
    | cons t more =>
      have ends : (behind rest).head?.any Char.isDigit = false := by cases rest <;> rfl
      rw [List.flatMap_cons, List.append_assoc, minorVersion?_append t more ends]
      rfl

/-- **Constructors show a visibility exactly where what stands in front is old.** -/
theorem constructorVisibility_forUnit {unit : Node} {c : Constraint} (h : States unit c) :
    (Writer.forUnit unit).constructorVisibility
      = c.leading?.any fun lead => lead.1.isOld lead.2 := by
  obtain ⟨before, pragma, after, members, others, literals⟩ := h
  have found : languageConstraint? unit = some (String.join c.tokens) := by
    rw [languageConstraint?, members, List.findSome?_append, List.findSome?_eq_none_iff.2]
    · simp [literals]
    · intro p hp
      have other := others p hp
      split
      · next name => exact absurd (by rw [name]; rfl) other
      · rfl
  show wantsConstructorVisibility unit = _
  rw [wantsConstructorVisibility, found, Option.bind_some, c.join_tokens, c.minorVersion?_text]
  cases c.leading? with
  | none => rfl
  | some lead =>
    simp only [Option.bind_some, Option.any_some, Comparator.isOld]
    cases Text.bounded? Text.word64 (lead.1.digits lead.2) <;> rfl

/-! ## §3. What can come to stand in front -/

namespace Constraint

variable {c c' : Constraint} {t : Comparator} {next : Option Comparator}

theorem cons_head?_tail (t : Comparator) (more : List Comparator) :
    t :: more = t :: (more.head?.toList ++ more.tail) := by
  cases more <;> rfl

theorem leads_of_leading? (h : c.leading? = some (t, next)) : c.Leads t next := by
  induction c with
  | nil => exact absurd h nofun
  | cons a rest ih =>
    cases a with
    | nil =>
      obtain ⟨b, hb, front⟩ := ih h
      exact ⟨b, List.mem_cons_of_mem _ hb, front⟩
    | cons u more =>
      cases h
      refine ⟨t :: more, List.mem_cons_self, more.tail, ?_, ?_⟩
      · rw [← cons_head?_tail]
      · intro last
        rw [List.head?_eq_none_iff.1 last]
        rfl

theorem leading?_ne_none_of_leads (h : c.Leads t next) : c.leading? ≠ none := by
  obtain ⟨a, ha, rest, front, -⟩ := h
  have some : a ≠ [] := by
    rintro rfl
    exact absurd front.nil_eq nofun
  clear front
  induction c with
  | nil => exact absurd ha List.not_mem_nil
  | cons b more ih =>
    cases b with
    | nil =>
      rcases List.mem_cons.1 ha with empty | later
      · exact absurd empty some
      · exact ih later
    | cons u more => exact Option.some_ne_none _

theorem Reordered.symm (h : c.Reordered c') : c'.Reordered c := by
  obtain ⟨between, each, alternatives⟩ := h
  have back : List.Forall₂ List.Perm between c := (each.imp fun _ _ same => same.symm).flip
  exact List.perm_comp_forall₂ alternatives.symm back

/-- What can come to stand in front can do so after any reordering. -/
theorem Leads.reordered (h : c.Leads t next) (order : c'.Reordered c) : c'.Leads t next := by
  obtain ⟨between, each, alternatives⟩ := order
  obtain ⟨a, ha, rest, front, last⟩ := h
  obtain ⟨b, hb, same⟩ := Projection.exists_of_forall₂ each (alternatives.mem_iff.2 ha)
  exact ⟨b, hb, rest, same.trans front, last⟩

/-- Whatever can come to stand in front does so in some order. -/
theorem Leads.exists_order (h : c.Leads t next) :
    ∃ c', c.Reordered c' ∧ c'.leading? = some (t, next) := by
  obtain ⟨a, ha, rest, front, last⟩ := h
  obtain ⟨before, after, rfl⟩ := List.append_of_mem ha
  refine ⟨(t :: (next.toList ++ rest)) :: (before ++ after),
    ⟨before ++ (t :: (next.toList ++ rest)) :: after, ?_, List.perm_middle⟩, ?_⟩
  · have same (as : Constraint) : List.Forall₂ List.Perm as as :=
      List.forall₂_same.2 fun a _ => .refl a
    exact List.rel_append (same before) (.cons front (same after))
  · cases next with
    | none => rw [last rfl]; rfl
    | some u => rfl

/-- The comparators of a constraint are those that can come to stand in front. -/
theorem mem_flatten_iff_exists_leads : t ∈ c.flatten ↔ ∃ next, c.Leads t next := by
  constructor
  · intro h
    obtain ⟨a, ha, ht⟩ := List.mem_flatten.1 h
    obtain ⟨before, after, rfl⟩ := List.append_of_mem ht
    refine ⟨(before ++ after).head?, _, ha, (before ++ after).tail, ?_, ?_⟩
    · rw [← cons_head?_tail]
      exact List.perm_middle
    · intro last
      rw [List.head?_eq_none_iff.1 last]
      rfl
  · rintro ⟨next, a, ha, rest, front, -⟩
    exact List.mem_flatten.2 ⟨a, ha, front.mem_iff.2 List.mem_cons_self⟩

/-- All pairs that can come to stand in front are read alike. -/
def SameSide (c : Constraint) : Prop :=
  ∀ t next t' next', c.Leads t next → c.Leads t' next' → t.isOld next = t'.isOld next'

/-- No comparator runs into the next one: in each alternative with two or more of them, every one
has an operator, or none is only `0.` and a number. -/
def Separate (c : Constraint) : Prop :=
  ∀ a ∈ c, a.length ≤ 1 ∨ (∀ t ∈ a, t.operator ≠ [])
    ∨ ∀ t ∈ a, ∃ sign ∈ t.version, sign.isDigit = false

/-- Where no comparator runs into the next one, each is read by itself. -/
theorem Separate.digits_eq (h : c.Separate) (front : c.Leads t next) :
    t.digits next = t.digits none := by
  obtain ⟨a, ha, rest, order, -⟩ := front
  cases next with
  | none => rfl
  | some u =>
    show (t.version ++ u.text).takeWhile _ = (t.version ++ []).takeWhile _
    rw [List.append_nil]
    rcases h a ha with short | operators | longer
    · have := order.length_eq
      simp only [List.length_cons, List.length_append, Option.toList_some] at this
      omega
    · have signed := operators u (order.mem_iff.2 (by simp))
      refine takeWhile_append_of_ends ?_
      rw [Comparator.text]
      cases operator : u.operator with
      | nil => exact absurd operator signed
      | cons sign more =>
        have noDigit : ∀ c ∈ signs, c.isDigit = false := by simp [signs]
        exact noDigit sign (u.signed sign (operator ▸ List.mem_cons_self))
    · exact takeWhile_append_of_exists (longer t (order.mem_iff.2 List.mem_cons_self))

/-- Where no comparator runs into the next one, it is enough to look at each by itself. -/
theorem Separate.sameSide_iff (h : c.Separate) :
    c.SameSide ↔ ∀ t ∈ c.flatten, ∀ t' ∈ c.flatten, t.isOld none = t'.isOld none := by
  have alone {t next} (front : c.Leads t next) : t.isOld next = t.isOld none := by
    rw [Comparator.isOld, h.digits_eq front, Comparator.isOld]
  constructor
  · intro same t ht t' ht'
    obtain ⟨next, front⟩ := mem_flatten_iff_exists_leads.1 ht
    obtain ⟨next', front'⟩ := mem_flatten_iff_exists_leads.1 ht'
    rw [← alone front, ← alone front', same _ _ _ _ front front']
  · intro same t next t' next' front front'
    rw [alone front, alone front', same t (mem_flatten_iff_exists_leads.2 ⟨next, front⟩) t'
      (mem_flatten_iff_exists_leads.2 ⟨next', front'⟩)]

/-- The order does not matter exactly if all pairs that can stand in front are read alike. -/
theorem sameSide_iff :
    c.SameSide ↔ ∀ c', c.Reordered c' →
      (c.leading?.any fun lead => lead.1.isOld lead.2)
        = c'.leading?.any fun lead => lead.1.isOld lead.2 := by
  constructor
  · intro same c' order
    cases here : c.leading? with
    | none =>
      cases there : c'.leading? with
      | none => rfl
      | some lead =>
        exact absurd here
          (leading?_ne_none_of_leads ((leads_of_leading? there).reordered order))
    | some lead =>
      have front := leads_of_leading? here
      cases there : c'.leading? with
      | none => exact absurd there (leading?_ne_none_of_leads (front.reordered order.symm))
      | some lead' => exact same _ _ _ _ front ((leads_of_leading? there).reordered order)
  · intro same t next t' next' front front'
    obtain ⟨d, order, leading⟩ := front.exists_order
    obtain ⟨d', order', leading'⟩ := front'.exists_order
    have whole := (same d order).symm.trans (same d' order')
    rwa [leading, leading'] at whole

end Constraint

/-! ## §4. Printed constructors -/

/-- Constructors are printed alike for all source units that state the constraint in some order. -/
def OrderFree (c : Constraint) : Prop :=
  ∀ c', c.Reordered c' → ∀ unit unit', States unit c → States unit' c' →
    ∀ n, isConstructor n = true → (Writer.forUnit unit).write n = (Writer.forUnit unit').write n

/-- A pragma that names the language. -/
def pragmaWith (tokens : List String) : Node where
  fields := [("literals", .array (("solidity" :: tokens).map Json.string)),
    ("nodeType", .string "PragmaDirective")]
  nodeType := "PragmaDirective"
  typed := rfl

/-- A source unit with nothing but a pragma. -/
def unitWith (tokens : List String) : Node where
  fields := [("nodeType", .string "SourceUnit"), ("nodes", .array [(pragmaWith tokens).toJson])]
  nodeType := "SourceUnit"
  typed := rfl

/-- Every constraint is stated by some source unit. -/
theorem states_unitWith (c : Constraint) : States (unitWith c.tokens) c := by
  refine ⟨[], pragmaWith c.tokens, [], ?_, nofun, ?_⟩
  · show ([(pragmaWith c.tokens).toJson].filterMap Node.ofJson?).filter _ = _
    have kind : (pragmaWith c.tokens).kind = .pragmaDirective :=
      Kind.ofName_name .pragmaDirective (by decide)
    rw [List.filterMap_cons_some (Node.ofJson?_toJson _), List.filter_cons_of_pos (by simp [kind])]
    rfl
  · show (("solidity" :: c.tokens).map Json.string).filterMap Json.string? = _
    rw [List.filterMap_map]
    exact List.filterMap_some

/-- A constructor with nothing in it. -/
def plainConstructor : Node where
  fields := [("body", .object [("nodeType", .string "Block")]), ("kind", .string "constructor"),
    ("nodeType", .string "FunctionDefinition"), ("visibility", .string "public")]
  nodeType := "FunctionDefinition"
  typed := rfl

theorem write_plainConstructor (w : Writer) :
    w.write plainConstructor
      = if w.constructorVisibility then "constructor() public \x7b\x7d"
        else "constructor() \x7b\x7d" := by
  obtain ⟨visible⟩ := w
  cases visible <;> decide +kernel

/-- The order of a constraint does not matter exactly if it does not for what is read of it. -/
theorem orderFree_iff_sameSide (c : Constraint) : OrderFree c ↔ c.SameSide := by
  rw [Constraint.sameSide_iff]
  constructor
  · intro free c' order
    have unit := states_unitWith c
    have unit' := states_unitWith c'
    have same := free c' order _ _ unit unit' plainConstructor rfl
    rw [write_plainConstructor, write_plainConstructor] at same
    rw [← constructorVisibility_forUnit unit, ← constructorVisibility_forUnit unit']
    cases here : (Writer.forUnit (unitWith c.tokens)).constructorVisibility <;>
      cases there : (Writer.forUnit (unitWith c'.tokens)).constructorVisibility <;>
      simp [here, there] at same ⊢
  · intro same c' order unit unit' states states' n _
    have writers : Writer.forUnit unit = Writer.forUnit unit' := by
      have flags := same c' order
      rwa [← constructorVisibility_forUnit states, ← constructorVisibility_forUnit states',
        ← Writer.mk.injEq] at flags
    rw [writers]

/-- **What a pragma says of constructors, and when the order of its comparators does not matter.**
Constructors show a visibility exactly if the comparator in front is read as one of a version
before 0.7. They are printed alike in every order exactly if this is so for all comparators that
can come to stand in front, or for none. Where no comparator runs into the next one, each is read
by itself. -/
theorem orderFree_iff (c : Constraint) :
    (∀ unit, States unit c → ((Writer.forUnit unit).constructorVisibility = true ↔
      ∃ t next, c.leading? = some (t, next) ∧ t.isOld next = true))
    ∧ (OrderFree c ↔ c.SameSide)
    ∧ (c.Separate → (c.SameSide ↔
      ∀ t ∈ c.flatten, ∀ t' ∈ c.flatten, t.isOld none = t'.isOld none)) := by
  refine ⟨fun unit states => ?_, orderFree_iff_sameSide c, fun h => h.sameSide_iff⟩
  rw [constructorVisibility_forUnit states]
  cases c.leading? with
  | none => simp
  | some lead => simp [Prod.ext_iff]

/-- The comparator `>=0.6.0`. -/
def atLeastSix : Comparator where
  operator := ['>', '=']
  version := ['6', '.', '0']
  tokens := [">=", "0.6", ".0"]
  signed := by simp [signs]
  joined := by decide +kernel

/-- The comparator `<0.9.0`. -/
def belowNine : Comparator where
  operator := ['<']
  version := ['9', '.', '0']
  tokens := ["<", "0.9", ".0"]
  signed := by simp [signs]
  joined := by decide +kernel

/-- The comparator `0.4`, without operator. -/
def four : Comparator where
  operator := []
  version := ['4']
  tokens := ["0.4"]
  signed := nofun
  joined := by decide +kernel

/-- `0.4 || >=0.6.0`: constructors show their visibility in every order. -/
theorem orderFree_iff_old :
    States (unitWith ["0.4", "||", ">=", "0.6", ".0"]) [[four], [atLeastSix]]
      ∧ (Writer.forUnit (unitWith ["0.4", "||", ">=", "0.6", ".0"])).constructorVisibility = true
      ∧ Constraint.Separate [[four], [atLeastSix]] ∧ OrderFree [[four], [atLeastSix]] := by
  have states : States (unitWith ["0.4", "||", ">=", "0.6", ".0"]) [[four], [atLeastSix]] :=
    states_unitWith [[four], [atLeastSix]]
  have separate : Constraint.Separate [[four], [atLeastSix]] := by
    intro a ha
    rcases List.mem_cons.1 ha with rfl | ha
    · exact .inl (by decide)
    · exact .inl (by rw [List.mem_singleton.1 ha]; decide)
  obtain ⟨shown, free, alone⟩ := orderFree_iff [[four], [atLeastSix]]
  refine ⟨states, (shown _ states).2 ⟨four, none, rfl, by decide +kernel⟩, separate,
    free.2 ((alone separate).2 ?_)⟩
  have old : ∀ t ∈ [four, atLeastSix], t.isOld none = true := by
    simp only [List.forall_mem_cons]
    exact ⟨by decide +kernel, by decide +kernel, List.forall_mem_nil _⟩
  intro t ht t' ht'
  rw [old t ht, old t' ht']

/-- **The order matters**: `>=0.6.0 <0.9.0` shows the visibility of constructors, and
`<0.9.0 >=0.6.0` does not. -/
theorem not_always_orderFree : ¬ ∀ c, OrderFree c := by
  intro free
  have order : Constraint.Reordered [[atLeastSix, belowNine]] [[belowNine, atLeastSix]] :=
    ⟨[[belowNine, atLeastSix]], .cons (.swap ..) .nil, .refl _⟩
  have same := free _ _ order _ _ (states_unitWith _) (states_unitWith _) plainConstructor rfl
  have ascending : (Writer.forUnit (unitWith [">=", "0.6", ".0", "<", "0.9", ".0"])).write
      plainConstructor = "constructor() public \x7b\x7d" := by decide +kernel
  have descending : (Writer.forUnit (unitWith ["<", "0.9", ".0", ">=", "0.6", ".0"])).write
      plainConstructor = "constructor() \x7b\x7d" := by decide +kernel
  exact absurd (ascending.symm.trans (same.trans descending)) (by decide)

end FuzzBundle.Solidity.Pragma
