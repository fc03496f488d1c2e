/-
  FuzzBundle.Proofs.Headers — what becomes of the declarations in a header.

  A header is made group by group and the groups are joined like their texts, so it is the joined
  texts of all its declarations one after the other (`headerOf_eq`). Grouping by kinds among which
  are all that occur keeps every declaration (`grouped_perm`), and its place among those of its kind
  (`filter_grouped`).

  The header of a unit has no group for events. So a unit is reproduced but for its events
  (`reproduced_but_events`), and a unit with an event is not reproduced (`not_reproduced`).

  Main statement: `ofUnit_reproduced_iff`.
-/
import Mathlib.Data.List.Basic
import FuzzBundle.Projection.Unit

namespace FuzzBundle.Projection

/-! ## §1. Groups -/

section Groups

variable {α κ : Type} [DecidableEq κ] (key : α → κ)

/-- Some items group by group, in the order of some keys. -/
def grouped (keys : List κ) (items : List α) : List α :=
  keys.flatMap fun k => items.filter (key · == k)

/-- The first group, and the other ones without its items. -/
theorem grouped_cons {k : κ} {keys : List κ} (hk : k ∉ keys) (items : List α) :
    grouped key (k :: keys) items
      = items.filter (key · == k) ++ grouped key keys (items.filter (key · != k)) := by
  have others : ∀ j ∈ keys,
      items.filter (key · == j) = (items.filter (key · != k)).filter (key · == j) := by
    intro j hj
    have apart : j ≠ k := fun h => hk (h ▸ hj)
    rw [List.filter_filter]
    refine List.filter_congr fun a _ => ?_
    by_cases h : key a = j
    · simp [h, apart]
    · simp [h]
  rw [grouped, List.flatMap_cons]
  congr 1
  exact List.flatMap_congr others

/-- The items that are left where one key is taken have the other keys. -/
theorem mem_keys_of_mem_filter {k : κ} {keys : List κ} {items : List α}
    (h : ∀ a ∈ items, key a ∈ k :: keys) : ∀ a ∈ items.filter (key · != k), key a ∈ keys := by
  intro a ha
  obtain ⟨hmem, hne⟩ := List.mem_filter.1 ha
  rcases List.mem_cons.1 (h a hmem) with heq | hin
  · simp [heq] at hne
  · exact hin

/-- **Grouping keeps every item**, as often as it is there. -/
theorem grouped_perm {keys : List κ} (hk : keys.Nodup) {items : List α}
    (h : ∀ a ∈ items, key a ∈ keys) : (grouped key keys items).Perm items := by
  induction keys generalizing items with
  | nil =>
    cases items with
    | nil => exact .nil
    | cons a items => cases h a List.mem_cons_self
  | cons k keys ih =>
    obtain ⟨apart, hk⟩ := List.nodup_cons.1 hk
    have rest := ih hk (mem_keys_of_mem_filter key h)
    rw [grouped_cons key apart]
    exact (rest.append_left _).trans (List.filter_append_perm (key · == k) items)

/-- **Grouping keeps the order within a group.** -/
theorem filter_grouped {keys : List κ} (hk : keys.Nodup) {items : List α}
    (h : ∀ a ∈ items, key a ∈ keys) (j : κ) :
    (grouped key keys items).filter (key · == j) = items.filter (key · == j) := by
  induction keys generalizing items with
  | nil =>
    cases items with
    | nil => rfl
    | cons a items => cases h a List.mem_cons_self
  | cons k keys ih =>
    obtain ⟨apart, hk⟩ := List.nodup_cons.1 hk
    rw [grouped_cons key apart, List.filter_append, ih hk (mem_keys_of_mem_filter key h),
      List.filter_filter, List.filter_filter]
    -- the group of the key stands in front, and all other groups behind it
    by_cases hj : j = k
    · have none : items.filter (fun a => key a == j && key a != k) = [] := by
        rw [List.filter_eq_nil_iff]
        intro a _
        simp [hj]
      have same : items.filter (fun a => key a == j && key a == k)
          = items.filter (key · == j) := by
        simp [hj]
      rw [none, same, List.append_nil]
    · have none : items.filter (fun a => key a == j && key a == k) = [] := by
        rw [List.filter_eq_nil_iff]
        intro a _
        by_cases ha : key a = j <;> simp [ha, hj]
      have same : items.filter (fun a => key a == j && key a != k)
          = items.filter (key · == j) := by
        refine List.filter_congr fun a _ => ?_
        by_cases ha : key a = j <;> simp [ha, hj]
      rw [none, same, List.nil_append]

end Groups

/-! ## §2. Joined texts -/

/-- One text above another one, where both are there. -/
def above (upper lower : String) : String :=
  if upper = "" then lower else if lower = "" then upper else upper ++ "\n" ++ lower

theorem joinPresent_eq_empty_iff (texts : List String) :
    joinPresent texts = "" ↔ texts.filter (· ≠ "") = [] := by
  unfold joinPresent Text.joinLines
  have present : ∀ t ∈ texts.filter (· ≠ ""), t ≠ "" := by
    intro t ht
    simpa using (List.mem_filter.1 ht).2
  cases h : texts.filter (· ≠ "") with
  | nil => simp
  | cons t rest =>
    rw [h] at present
    have ht : t ≠ "" := present t List.mem_cons_self
    cases rest with
    | nil => simp [ht]
    | cons u rest => simp [ht]

/-- The texts are joined from the last one on. -/
theorem joinPresent_cons (t : String) (texts : List String) :
    joinPresent (t :: texts) = above t (joinPresent texts) := by
  by_cases ht : t = ""
  · subst ht
    rfl
  · by_cases hj : joinPresent texts = ""
    · have none := (joinPresent_eq_empty_iff texts).1 hj
      rw [above, if_neg ht, if_pos hj, joinPresent, List.filter_cons_of_pos (by simpa using ht),
        none]
      simp [Text.joinLines]
    · have some : texts.filter (· ≠ "") ≠ [] := fun h => hj ((joinPresent_eq_empty_iff texts).2 h)
      rw [above, if_neg ht, if_neg hj, joinPresent, List.filter_cons_of_pos (by simpa using ht)]
      exact String.intercalate_cons_of_ne_nil some

theorem above_assoc (s t u : String) : above (above s t) u = above s (above t u) := by
  by_cases hs : s = ""
  · simp [above, hs]
  · by_cases ht : t = ""
    · simp [above, hs, ht]
    · by_cases hu : u = ""
      · simp [above, hs, ht, hu]
      · simp [above, hs, ht, hu, String.append_assoc]

theorem joinPresent_append (texts texts' : List String) :
    joinPresent (texts ++ texts') = above (joinPresent texts) (joinPresent texts') := by
  induction texts with
  | nil => rfl
  | cons t texts ih => rw [List.cons_append, joinPresent_cons, ih, joinPresent_cons, above_assoc]

/-- **Joining the joined groups is joining all of their texts.** -/
theorem joinPresent_groups (groups : List (List String)) :
    joinPresent (groups.map joinPresent) = joinPresent groups.flatten := by
  induction groups with
  | nil => rfl
  | cons group groups ih =>
    rw [List.map_cons, joinPresent_cons, ih, List.flatten_cons, joinPresent_append]

/-- Texts that are all there are joined as they are. -/
theorem joinPresent_of_present {texts : List String} (h : ∀ t ∈ texts, t ≠ "") :
    joinPresent texts = Text.joinLines texts := by
  rw [joinPresent, List.filter_eq_self.2]
  simpa using h

/-- How long lines are with their line feeds. -/
def lineLengths : List String → Nat
  | [] => 0
  | t :: texts => t.length + 1 + lineLengths texts

theorem length_joinLines (texts : List String) :
    (Text.joinLines texts).length = lineLengths texts - 1 := by
  unfold Text.joinLines
  induction texts with
  | nil => rfl
  | cons t texts ih =>
    cases texts with
    | nil => simp [lineLengths]
    | cons u texts =>
      have feed : "\n".length = 1 := rfl
      rw [String.intercalate_cons_cons, String.length_append, String.length_append, ih, feed]
      simp only [lineLengths]
      omega

theorem lineLengths_perm {texts texts' : List String} (h : texts.Perm texts') :
    lineLengths texts = lineLengths texts' := by
  induction h with
  | nil => rfl
  | cons t _ ih => rw [lineLengths, lineLengths, ih]
  | swap t u texts =>
    simp only [lineLengths]
    omega
  | trans _ _ ih ih' => rw [ih, ih']

theorem lineLengths_append (texts texts' : List String) :
    lineLengths (texts ++ texts') = lineLengths texts + lineLengths texts' := by
  induction texts with
  | nil => rw [List.nil_append, lineLengths, Nat.zero_add]
  | cons t texts ih =>
    rw [List.cons_append, lineLengths, lineLengths, ih]
    omega

theorem lt_lineLengths_of_mem {t : String} {texts : List String} (h : t ∈ texts) :
    t.length < lineLengths texts := by
  induction texts with
  | nil => cases h
  | cons u texts ih =>
    rw [lineLengths]
    rcases List.mem_cons.1 h with rfl | h
    · omega
    · have := ih h
      omega

/-! ## §3. Headers -/

/-- **A header is the joined texts of its declarations**, in the order of their groups. -/
theorem headerOf_eq (w : Writer) (parent : Node) (kinds : List Kind) :
    headerOf w parent kinds
      = joinPresent ((grouped Node.kind kinds (parent.children "nodes")).map (headerText w)) := by
  have groups : kinds.map (groupText w parent)
      = (kinds.map fun kind => (parent.membersOf kind).map (headerText w)).map joinPresent := by
    rw [List.map_map]
    rfl
  rw [headerOf, groups, joinPresent_groups, ← List.flatMap_def, grouped, List.map_flatMap]
  rfl

/-- Items that are in no group have no part in the grouping. -/
theorem grouped_filter {keys : List Kind} {p : Kind → Bool} (hp : ∀ k ∈ keys, p k = true)
    (items : List Node) :
    grouped Node.kind keys (items.filter fun n => p n.kind) = grouped Node.kind keys items := by
  refine List.flatMap_congr fun k hk => ?_
  rw [List.filter_filter]
  refine List.filter_congr fun n _ => ?_
  by_cases h : n.kind = k
  · simp [h, hp k hk]
  · simp [h]

/-! ## §4. Units -/

/-- The kinds of declarations that a source file may have outside of contracts. -/
def fileLevelKinds : List Kind :=
  [.pragmaDirective, .importDirective, .enumDefinition, .structDefinition,
    .userDefinedValueTypeDefinition, .usingForDirective, .variableDeclaration, .errorDefinition,
    .eventDefinition, .functionDefinition, .contractDefinition]

/-- The declarations that are no contracts. -/
def looseOf (declarations : List Node) : List Node :=
  declarations.filter (·.kind != .contractDefinition)

/-- Every one of some declarations is reproduced once: a contract in the list of contracts, in its
place, and any other declaration as an entry of the header, in its place among those of its kind. -/
structure Reproduced (w : Writer) (declarations : List Node) (projection : UnitProjection) :
    Prop where
  contracts : projection.contracts
    = (declarations.filter (·.kind == .contractDefinition)).map (ofContract w)
  header : ∃ order : List Node, order.Perm (looseOf declarations) ∧
    (∀ kind, order.filter (·.kind == kind) = (looseOf declarations).filter (·.kind == kind)) ∧
    projection.header = Text.joinLines (order.map (headerText w))

/-- The declarations that the header of a unit is made of. -/
def inHeader (declarations : List Node) : List Node :=
  looseOf (declarations.filter (·.kind != .eventDefinition))

theorem inHeader_eq (declarations : List Node) :
    inHeader declarations = (looseOf declarations).filter (·.kind != .eventDefinition) :=
  List.filter_comm _ _ _

/-- The events among some declarations. -/
def eventsOf (declarations : List Node) : List Node :=
  declarations.filter (·.kind == .eventDefinition)

/-- What is loose is what stands in the header together with the events. -/
theorem loose_perm (declarations : List Node) :
    (eventsOf declarations ++ inHeader declarations).Perm (looseOf declarations) := by
  have events : (looseOf declarations).filter (·.kind == .eventDefinition)
      = eventsOf declarations := by
    rw [looseOf, List.filter_filter]
    refine List.filter_congr fun n _ => ?_
    by_cases h : n.kind = .eventDefinition <;> simp [h]
  rw [← events, inHeader_eq]
  exact List.filter_append_perm (·.kind == .eventDefinition) (looseOf declarations)

theorem kind_mem_unitHeaderKinds {declarations : List Node}
    (allowed : ∀ n ∈ declarations, n.kind ∈ fileLevelKinds) :
    ∀ n ∈ inHeader declarations, n.kind ∈ unitHeaderKinds := by
  intro n hn
  obtain ⟨hn, notContract⟩ := List.mem_filter.1 hn
  obtain ⟨hn, notEvent⟩ := List.mem_filter.1 hn
  have kinds : ∀ kind ∈ fileLevelKinds,
      (kind != .contractDefinition) = true → (kind != .eventDefinition) = true →
        kind ∈ unitHeaderKinds := by decide
  exact kinds n.kind (allowed n hn) notContract notEvent

/-- The header of a unit, as the texts of declarations that are all there. -/
theorem ofUnit_header {w : Writer} {unit : Node}
    (printed : ∀ n ∈ looseOf (unit.children "nodes"), headerText w n ≠ "") :
    (ofUnit w unit).header = Text.joinLines
      ((grouped Node.kind unitHeaderKinds (inHeader (unit.children "nodes"))).map
        (headerText w)) := by
  have same : grouped Node.kind unitHeaderKinds (inHeader (unit.children "nodes"))
      = grouped Node.kind unitHeaderKinds (unit.children "nodes") := by
    rw [inHeader, looseOf, grouped_filter (p := (· != .contractDefinition)) (by decide),
      grouped_filter (p := (· != .eventDefinition)) (by decide)]
  show headerOf w unit unitHeaderKinds = _
  rw [headerOf_eq, ← same, joinPresent_of_present]
  intro t ht
  obtain ⟨n, hn, rfl⟩ := List.mem_map.1 ht
  obtain ⟨kind, _, hn⟩ := List.mem_flatMap.1 hn
  obtain ⟨hn, _⟩ := List.mem_filter.1 hn
  obtain ⟨hn, loose⟩ := List.mem_filter.1 hn
  exact printed n (List.mem_filter.2 ⟨(List.mem_filter.1 hn).1, loose⟩)

theorem nodup_unitHeaderKinds : unitHeaderKinds.Nodup := by decide

/-- **A unit is reproduced but for its events.** -/
theorem reproduced_but_events {w : Writer} {unit : Node}
    (allowed : ∀ n ∈ unit.children "nodes", n.kind ∈ fileLevelKinds)
    (printed : ∀ n ∈ looseOf (unit.children "nodes"), headerText w n ≠ "") :
    Reproduced w ((unit.children "nodes").filter (·.kind != .eventDefinition))
      (ofUnit w unit) := by
  have grouping := kind_mem_unitHeaderKinds allowed
  refine ⟨?_, grouped Node.kind unitHeaderKinds (inHeader (unit.children "nodes")), ?_, ?_, ?_⟩
  · show (unit.membersOf .contractDefinition).map (ofContract w) = _
    rw [Node.membersOf, List.filter_filter]
    congr 1
    refine List.filter_congr fun n _ => ?_
    by_cases h : n.kind = .contractDefinition <;> simp [h]
  · exact grouped_perm Node.kind nodup_unitHeaderKinds grouping
  · exact filter_grouped Node.kind nodup_unitHeaderKinds grouping
  · exact ofUnit_header printed

/-- **A unit with an event is not reproduced**: the texts that make its header are too short to
hold that of the event. -/
theorem not_reproduced {w : Writer} {unit event : Node}
    (allowed : ∀ n ∈ unit.children "nodes", n.kind ∈ fileLevelKinds)
    (printed : ∀ n ∈ looseOf (unit.children "nodes"), headerText w n ≠ "")
    (he : event ∈ unit.children "nodes") (kind : event.kind = .eventDefinition) :
    ¬ Reproduced w (unit.children "nodes") (ofUnit w unit) := by
  rintro ⟨_, order, perm, _, header⟩
  rw [ofUnit_header printed] at header
  -- both sides are one text, but the right one has the lines of the events as well
  have lengths := congrArg String.length header
  rw [length_joinLines, length_joinLines] at lengths
  have grouping := grouped_perm Node.kind nodup_unitHeaderKinds (kind_mem_unitHeaderKinds allowed)
  have whole : lineLengths (order.map (headerText w))
      = lineLengths ((eventsOf (unit.children "nodes")).map (headerText w))
        + lineLengths ((grouped Node.kind unitHeaderKinds
          (inHeader (unit.children "nodes"))).map (headerText w)) := by
    rw [lineLengths_perm ((perm.trans (loose_perm _).symm).map (headerText w)), List.map_append,
      lineLengths_append, lineLengths_perm (grouping.map (headerText w))]
  have there : 0 < (headerText w event).length := by
    rw [Nat.pos_iff_ne_zero, ne_eq, String.length_eq_zero_iff]
    exact printed event (List.mem_filter.2 ⟨he, by rw [kind]; decide⟩)
  have lost : (headerText w event).length
      < lineLengths ((eventsOf (unit.children "nodes")).map (headerText w)) := by
    have among : event ∈ eventsOf (unit.children "nodes") :=
      List.mem_filter.2 ⟨he, by rw [kind]; decide⟩
    exact lt_lineLengths_of_mem (List.mem_map_of_mem among)
  omega

/-- A declaration without parameters. -/
def bareDeclaration (nodeType name : String) : Json := Json.ofFields [
  ("nodeType", .string nodeType), ("name", .string name),
  ("parameters", Json.ofFields [("nodeType", .string "ParameterList"), ("parameters", .array [])])]

/-- A unit of some declarations. -/
def unitWith (declarations : List Json) : Node where
  fields := [("nodeType", .string "SourceUnit"), ("nodes", .array declarations)]
  nodeType := "SourceUnit"
  typed := rfl

/-- A unit with one event and nothing else. -/
def eventUnit : Node := unitWith [bareDeclaration "EventDefinition" "E"]

/-- Not every unit is reproduced. -/
theorem not_always_reproduced :
    ¬ ∀ (w : Writer) (unit : Node),
      (∀ n ∈ unit.children "nodes", n.kind ∈ fileLevelKinds) →
      (∀ n ∈ looseOf (unit.children "nodes"), headerText w n ≠ "") →
      Reproduced w (unit.children "nodes") (ofUnit w unit) := by
  intro h
  have allowed : ∀ n ∈ eventUnit.children "nodes", n.kind ∈ fileLevelKinds := by decide +kernel
  have printed : ∀ n ∈ looseOf (eventUnit.children "nodes"),
      headerText (.forUnit eventUnit) n ≠ "" := by decide +kernel
  have event : ∃ n ∈ eventUnit.children "nodes", n.kind = .eventDefinition := by decide +kernel
  obtain ⟨n, hn, kind⟩ := event
  exact not_reproduced allowed printed hn kind (h _ _ allowed printed)

/-- **A unit is reproduced if and only if it has no event**, and but for its events in any case. -/
theorem ofUnit_reproduced_iff (w : Writer) (unit : Node)
    (allowed : ∀ n ∈ unit.children "nodes", n.kind ∈ fileLevelKinds)
    (printed : ∀ n ∈ looseOf (unit.children "nodes"), headerText w n ≠ "") :
    Reproduced w ((unit.children "nodes").filter (·.kind != .eventDefinition)) (ofUnit w unit)
      ∧ (Reproduced w (unit.children "nodes") (ofUnit w unit)
        ↔ ∀ n ∈ unit.children "nodes", n.kind ≠ .eventDefinition) := by
  have rest := reproduced_but_events allowed printed
  refine ⟨rest, ?_, ?_⟩
  · intro whole n hn kind
    exact not_reproduced allowed printed hn kind whole
  · intro eventless
    -- without events there is nothing that is left out
    have all : (unit.children "nodes").filter (·.kind != .eventDefinition)
        = unit.children "nodes" := by
      rw [List.filter_eq_self]
      intro n hn
      simpa using eventless n hn
    exact all ▸ rest

/-- A unit with a contract between other declarations, in another order than that of the groups. -/
def plainUnit : Node := unitWith [
  bareDeclaration "ErrorDefinition" "Closed", bareDeclaration "ContractDefinition" "Pool",
  Json.ofFields [("nodeType", .string "PragmaDirective"),
    ("literals", .array [.string "abicoder", .string "v2"])]]

/-- A unit without events is reproduced. -/
theorem reproduced_plainUnit :
    Reproduced (.forUnit plainUnit) (plainUnit.children "nodes")
      (ofUnit (.forUnit plainUnit) plainUnit) := by
  have spec := ofUnit_reproduced_iff (.forUnit plainUnit) plainUnit (by decide +kernel)
    (by decide +kernel)
  exact spec.2.2 (by decide +kernel)

end FuzzBundle.Projection
