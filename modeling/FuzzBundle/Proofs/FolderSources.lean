/-
  FuzzBundle.Proofs.FolderSources — a folder of sources becomes one unit.

  `Tree.HasSource` says what a source is: a file that visible names lead to, the last of which has
  the extension of the language in letters of either case. The unit of a folder has an entry for
  each of them and no other (`Tree.HeldBy`); its key is the path that the names make, and names
  without a slash make different paths (`Path.ofNames_inj`). There is a unit unless some source or
  the list of remappings holds no text.

  Main statement: `Sources.unitOf_folder`.
-/
import FuzzBundle.Proofs.FileBytes
import FuzzBundle.Proofs.Lines
import FuzzBundle.Proofs.SourceTrees
import Mathlib.Data.List.Forall2
import Mathlib.Data.List.TakeWhile

namespace FuzzBundle

/-! ## §1. Names -/

namespace Path

/-- **Different names make different paths**, if there is no slash in them. -/
theorem ofNames_inj {names names' : List String} (present : names ≠ []) (present' : names' ≠ [])
    (proper : ∀ name ∈ names, '/' ∉ name.toList) (proper' : ∀ name ∈ names', '/' ∉ name.toList)
    (same : ofNames names = ofNames names') : names = names' :=
  Text.intercalate_inj rfl proper proper' (iff_of_false present present') same

theorem isHidden_iff {name : String} : isHidden name = true ↔ name.toList.head? = some '.' := by
  rw [isHidden, Text.startsWith_iff]
  cases name.toList with
  | nil => simp
  | cons c cs => simp [eq_comm]

/-- A name has an extension if something precedes the last point and the extension follows it. -/
theorem hasExtension_iff {extension name : String} (plain : '.' ∉ extension.toList) :
    hasExtension extension name = true
      ↔ ∃ stem ending, name.toList = stem ++ '.' :: ending ∧ stem ≠ []
        ∧ ending.map Char.toLower = extension.toList := by
  unfold hasExtension extension?
  simp only
  constructor
  · intro h
    split at h
    · next point c before cut =>
      -- what was dropped begins with the last point
      have whole := List.takeWhile_append_dropWhile (p := (· ≠ '.')) (l := name.toList.reverse)
      have isPoint : point = '.' := by
        have fails := List.head_dropWhile_not (l := name.toList.reverse) (· ≠ '.')
          (by rw [cut]; nofun)
        simp only [cut, List.head_cons] at fails
        simpa using fails
      rw [cut, isPoint] at whole
      have spelled := congrArg List.reverse whole
      rw [List.reverse_reverse, List.reverse_append, List.reverse_cons, List.append_assoc,
        List.singleton_append] at spelled
      exact ⟨(c :: before).reverse, _, spelled.symm, by simp, beq_iff_eq.1 h⟩
    · cases h
  · rintro ⟨stem, ending, spelled, present, lower⟩
    have noPoint : ∀ c ∈ ending.reverse, decide (c ≠ '.') = true := by
      refine fun c mem => decide_eq_true fun same => plain ?_
      rw [← lower]
      exact List.mem_map.2 ⟨'.', same ▸ List.mem_reverse.1 mem, rfl⟩
    have reversed : name.toList.reverse = ending.reverse ++ '.' :: stem.reverse := by
      rw [spelled]
      simp
    obtain ⟨c, before, stemReversed⟩ :=
      List.exists_cons_of_ne_nil (mt List.reverse_eq_nil_iff.1 present)
    rw [reversed, List.dropWhile_append_of_pos noPoint, List.takeWhile_append_of_pos noPoint,
      stemReversed]
    simp [lower]

end Path

/-- Where equal keys have equal values, every entry that is inserted is found. -/
theorem Entries.get?_ofList_eq_some_iff {entries : List (String × α)}
    (determined : ∀ a ∈ entries, ∀ b ∈ entries, a.1 = b.1 → a = b) {key : String} {value : α} :
    Entries.get? (Entries.ofList entries) key = some value ↔ (key, value) ∈ entries := by
  refine ⟨fun found => Entries.mem_of_mem_ofList (Entries.mem_of_get? found), fun mem => ?_⟩
  -- once the value is there, nothing that is inserted replaces it by another
  have step (rest : List (String × α)) (acc : Entries α) (ascending : acc.Ascending)
      (within : ∀ e ∈ rest, e ∈ entries)
      (start : (key, value) ∈ rest ∨ Entries.get? acc key = some value) :
      Entries.get? (rest.foldl (fun acc e => Entries.insert acc e.1 e.2) acc) key = some value := by
    induction rest generalizing acc with
    | nil => exact start.resolve_left nofun
    | cons first rest ih =>
      obtain ⟨known, within⟩ := List.forall_mem_cons.1 within
      rw [List.foldl_cons]
      refine ih _ (Entries.ascending_insert ascending _ _) within ?_
      rw [Entries.get?_insert ascending]
      by_cases same : first.1 = key
      · have value' : first = (key, value) := determined first known _ mem same
        exact .inr (by rw [if_pos same, value'])
      · rw [if_neg same]
        refine start.imp_left fun there => ?_
        exact (List.mem_cons.1 there).resolve_left fun eq => same (by rw [← eq])
  exact step entries [] List.Pairwise.nil (fun _ h => h) (.inl mem)

/-! ## §2. What a folder holds -/

namespace Tree

variable (t : Tree)

/-- A file of a tree that counts as a source: none of the names that lead to it begins with a point,
and the last one ends with the extension of the language. -/
structure HasSource (names : List String) (bytes : List UInt8) : Prop where
  there : t.file? names = some (.ofBytes bytes)
  visible : ∀ name ∈ names, name.toList.head? ≠ some '.'
  named : ∃ name stem ending, names.getLast? = some name ∧ name.toList = stem ++ '.' :: ending
    ∧ stem ≠ [] ∧ ending.map Char.toLower = "sol".toList

/-- The bytes of the file that lists the remappings. -/
def HasRemappings (bytes : List UInt8) : Prop := t.file? ["remappings.txt"] = some (.ofBytes bytes)

/-- A unit holds what is in a folder: one entry for each source, with its text, and the remappings,
which are the lines of their file without white space around them that are not empty then. -/
structure HeldBy (unit : BuildUnit) : Prop where
  language : unit.document.language = "Solidity"
  keys : ∀ key, (∃ entry, unit.document.sources.get? key = some entry)
    ↔ ∃ names bytes, t.HasSource names bytes ∧ key = Path.ofNames names
  texts : ∀ names bytes, t.HasSource names bytes → ∃ text, bytes = encoded text
    ∧ unit.document.sources.get? (Path.ofNames names) = some (.ofContent text)
  remappings : ∀ bytes, t.HasRemappings bytes → ∃ text, bytes = encoded text
    ∧ unit.document.settings.remappings
      = ((Text.lines text).map Text.trim).filter fun line => line ≠ ""
  noRemappings : (∀ bytes, ¬ t.HasRemappings bytes) → unit.document.settings.remappings = []

variable {t}

theorem hasSource_iff {names : List String} {bytes : List UInt8} :
    t.HasSource names bytes
      ↔ t.file? names = some (.ofBytes bytes) ∧ Sources.isSource names = true := by
  have plain : '.' ∉ "sol".toList := by decide
  have visible : names.all (fun name => !Path.isHidden name) = true
      ↔ ∀ name ∈ names, name.toList.head? ≠ some '.' := by
    simp only [List.all_eq_true, Bool.not_eq_true', ← Bool.not_eq_true, Path.isHidden_iff]
  have named : names.getLast?.any (Path.hasExtension "sol") = true
      ↔ ∃ name stem ending, names.getLast? = some name ∧ name.toList = stem ++ '.' :: ending
        ∧ stem ≠ [] ∧ ending.map Char.toLower = "sol".toList := by
    rw [Option.any_eq_true]
    simp only [Path.hasExtension_iff plain, exists_and_left]
  rw [Sources.isSource, Bool.and_eq_true, visible, named]
  exact ⟨fun h => ⟨h.there, h.visible, h.named⟩, fun h => ⟨h.1, h.2.1, h.2.2⟩⟩

/-- Different sources have different paths. -/
theorem HasSource.path_inj (wellNamed : t.WellNamed) {names names' : List String}
    {bytes bytes' : List UInt8} (h : t.HasSource names bytes) (h' : t.HasSource names' bytes')
    (same : Path.ofNames names = Path.ofNames names') : names = names' := by
  have present {names : List String} {bytes : List UInt8} (h : t.HasSource names bytes) :
      names ≠ [] := by
    rintro rfl
    obtain ⟨_, _, _, none, -⟩ := h.named
    cases none
  exact Path.ofNames_inj (present h) (present h') (wellNamed.of_file? h.there).1
    (wellNamed.of_file? h'.there).1 same

end Tree

namespace Sources

section Reading

variable {p : Project}

/-! ## §3. Reading the files -/

theorem readFile_eq_ok_iff {name text : String} {bytes : List UInt8} :
    readFile p name (.ofBytes bytes) = .ok text ↔ bytes = encoded text := by
  rw [← text?_ofBytes_eq_some_iff, readFile]
  cases (Content.ofBytes bytes).text? <;> simp

/-- Sources are read if each of them is, and each becomes the entry for its path. -/
theorem readSources_eq_ok_iff {files : List (List String × Content)}
    {sources : List (String × SourceEntry)} :
    readSources p files = .ok sources
      ↔ List.Forall₂ (fun file source => ∃ text,
          readFile p (Path.ofNames file.1) file.2 = .ok text
            ∧ source = (Path.ofNames file.1, .ofContent text)) files sources := by
  induction files generalizing sources with
  | nil =>
    rw [readSources, List.forall₂_nil_left_iff, Except.ok.injEq]
    exact eq_comm
  | cons file rest ih =>
    obtain ⟨names, content⟩ := file
    rw [readSources, List.forall₂_cons_left_iff]
    cases first : readFile p (Path.ofNames names) content with
    | error e => simp
    | ok text =>
      cases later : readSources p rest with
      | error e => simp [← ih, later]
      | ok entries =>
        simp only [← ih, later, Except.ok.injEq]
        constructor
        · rintro rfl
          exact ⟨_, entries, ⟨text, rfl, rfl⟩, rfl, rfl⟩
        · rintro ⟨_, _, ⟨_, rfl, rfl⟩, rfl, rfl⟩
          rfl

/-- What else is in a project does not matter for reading. -/
theorem readSources_tree (p : Project) (tree? : Option Tree)
    (files : List (List String × Content)) :
    readSources { p with tree? := tree? } files = readSources p files := by
  induction files with
  | nil => rfl
  | cons file rest ih =>
    rw [readSources, readSources, ih]
    rfl

theorem exists_readSources_iff {files : List (List String × Content)} :
    (∃ sources, readSources p files = .ok sources)
      ↔ ∀ file ∈ files, ∃ text, readFile p (Path.ofNames file.1) file.2 = .ok text := by
  simp only [readSources_eq_ok_iff]
  constructor
  · rintro ⟨sources, each⟩ file mem
    induction each with
    | nil => cases mem
    | cons here _ ih =>
      rcases List.mem_cons.1 mem with rfl | later
      · exact here.imp fun _ h => h.1
      · exact ih later
  · intro each
    induction files with
    | nil => exact ⟨[], .nil⟩
    | cons file rest ih =>
      obtain ⟨⟨text, here⟩, later⟩ := List.forall_mem_cons.1 each
      obtain ⟨sources, read⟩ := ih later
      exact ⟨_ :: sources, .cons ⟨text, here, rfl⟩ read⟩

/-- The entries for some sources are one for each of them. -/
theorem mem_of_readSources {files : List (List String × Content)}
    {sources : List (String × SourceEntry)} (read : readSources p files = .ok sources)
    {source : String × SourceEntry} :
    source ∈ sources ↔ ∃ file ∈ files, ∃ text, readFile p (Path.ofNames file.1) file.2 = .ok text
      ∧ source = (Path.ofNames file.1, .ofContent text) := by
  induction readSources_eq_ok_iff.1 read with
  | nil => simp
  | @cons file first files sources here each ih =>
    obtain ⟨text, readHere, rfl⟩ := here
    rw [List.mem_cons, ih (readSources_eq_ok_iff.2 each)]
    simp only [List.mem_cons, exists_eq_or_imp, readHere, Except.ok.injEq, exists_eq_left']

/-! ## §4. The unit of a folder -/

theorem versionOf_eq_ok (wording : Wording) {asked : String}
    (parses : (Version.parse? (Text.trim asked)).isSome = true) :
    versionOf wording (some asked) = .ok (Text.trim asked) := by
  have present : Text.trim asked ≠ "" := by
    intro empty
    rw [empty] at parses
    exact absurd parses (by decide)
  have known : ¬ (Version.parse? (Text.trim asked)).isNone = true := by
    rw [Option.isNone_iff_eq_none, ← ne_eq, Option.ne_none_iff_isSome]
    exact parses
  unfold versionOf
  simp only [Option.getD_some, if_neg present, if_neg known]

variable {entries : List (String × Tree)} {asked : String}

/-- The unit of a folder is there if its sources and its remappings are read. -/
theorem unitOf_eq_ok_iff (folder : p.tree? = some (.folder entries)) (listed : p.unlisted? = none)
    (parses : (Version.parse? (Text.trim asked)).isSome = true) {unit : BuildUnit} :
    unitOf p (some asked) = .ok unit
      ↔ ∃ sources lines, readSources p (sourceFiles entries) = .ok sources
        ∧ remappings p = .ok lines
        ∧ unit = ⟨Text.trim asked,
            .ofSources (Dict.ofList sources) ⟨lines, Dict.empty, Dict.empty⟩⟩ := by
  rw [unitOf, versionOf_eq_ok p.wording parses, folder, listed]
  simp only [Option.bind_some, Tree.entries?, bind, Except.bind, pure, Except.pure]
  cases readSources p (sourceFiles entries) with
  | error e => simp
  | ok sources =>
    cases remappings p with
    | error e => simp
    | ok lines => simp [eq_comm]

/-- The sources of a folder that are found. -/
theorem mem_sourceFiles_iff_hasSource (wellNamed : (Tree.folder entries).WellNamed)
    {names : List String} {content : Content} :
    (names, content) ∈ sourceFiles entries
      ↔ ∃ bytes, content = .ofBytes bytes ∧ (Tree.folder entries).HasSource names bytes := by
  rw [mem_sourceFiles_iff wellNamed]
  constructor
  · rintro ⟨there, source⟩
    obtain ⟨bytes, rfl⟩ := (wellNamed.of_file? there).2
    exact ⟨bytes, rfl, Tree.hasSource_iff.2 ⟨there, source⟩⟩
  · rintro ⟨bytes, rfl, h⟩
    exact Tree.hasSource_iff.1 h

/-- They are read if all of them hold a text. -/
theorem exists_sources_iff (wellNamed : (Tree.folder entries).WellNamed) :
    (∃ sources, readSources p (sourceFiles entries) = .ok sources)
      ↔ ∀ names bytes, (Tree.folder entries).HasSource names bytes →
          ∃ text, bytes = encoded text := by
  rw [exists_readSources_iff]
  constructor
  · intro each names bytes source
    have mem := (mem_sourceFiles_iff_hasSource wellNamed).2 ⟨bytes, rfl, source⟩
    exact (each _ mem).imp fun _ => readFile_eq_ok_iff.1
  · rintro each ⟨names, content⟩ mem
    obtain ⟨bytes, rfl, source⟩ := (mem_sourceFiles_iff_hasSource wellNamed).1 mem
    exact (each names bytes source).imp fun _ => readFile_eq_ok_iff.2

/-- What is read for a path is the text of the one source with this path. -/
theorem get?_sources_eq_some_iff (wellNamed : (Tree.folder entries).WellNamed)
    {sources : List (String × SourceEntry)}
    (read : readSources p (sourceFiles entries) = .ok sources) {key : String}
    {entry : SourceEntry} :
    (Dict.ofList sources).get? key = some entry
      ↔ ∃ names text, (Tree.folder entries).HasSource names (encoded text)
        ∧ key = Path.ofNames names ∧ entry = .ofContent text := by
  have member {source : String × SourceEntry} : source ∈ sources
      ↔ ∃ names text, (Tree.folder entries).HasSource names (encoded text)
        ∧ source = (Path.ofNames names, .ofContent text) := by
    rw [mem_of_readSources read]
    constructor
    · rintro ⟨⟨names, content⟩, mem, text, readHere, rfl⟩
      obtain ⟨bytes, rfl, source⟩ := (mem_sourceFiles_iff_hasSource wellNamed).1 mem
      exact ⟨names, text, readFile_eq_ok_iff.1 readHere ▸ source, rfl⟩
    · rintro ⟨names, text, source, rfl⟩
      exact ⟨_, (mem_sourceFiles_iff_hasSource wellNamed).2 ⟨_, rfl, source⟩, text,
        readFile_eq_ok_iff.2 rfl, rfl⟩
  have determined : ∀ a ∈ sources, ∀ b ∈ sources, a.1 = b.1 → a = b := by
    intro a ha b hb same
    obtain ⟨names, text, source, rfl⟩ := member.1 ha
    obtain ⟨names', text', source', rfl⟩ := member.1 hb
    obtain rfl := source.path_inj wellNamed source' same
    have bytes := ofBytes_inj (Option.some.inj (source.there.symm.trans source'.there))
    rw [encoded_inj bytes]
  show Entries.get? (Entries.ofList sources) key = some entry ↔ _
  rw [Entries.get?_ofList_eq_some_iff determined, member]
  simp only [Prod.mk.injEq]

section Folder

variable (folder : p.tree? = some (.folder entries)) (wellNamed : (Tree.folder entries).WellNamed)
include folder wellNamed

theorem remappings_eq_ok_iff {lines : List String} :
    remappings p = .ok lines
      ↔ (∀ bytes, (Tree.folder entries).HasRemappings bytes →
          ∃ text, bytes = encoded text ∧ lines = remappingsOf text)
        ∧ ((∀ bytes, ¬ (Tree.folder entries).HasRemappings bytes) → lines = []) := by
  unfold remappings Tree.HasRemappings
  rw [Project.file?, folder, Option.bind_some, remappingsFile]
  cases found : (Tree.folder entries).file? ["remappings.txt"] with
  | none => simp [eq_comm]
  | some content =>
    obtain ⟨bytes, rfl⟩ := (wellNamed.of_file? found).2
    simp only [Option.some.injEq]
    constructor
    · intro read
      refine ⟨fun bytes' same => ?_, fun none => absurd rfl (none bytes)⟩
      obtain rfl := ofBytes_inj same
      cases text : readFile p "remappings.txt" (.ofBytes bytes) with
      | error e =>
        rw [text] at read
        cases read
      | ok text' =>
        rw [text] at read
        cases read
        exact ⟨text', readFile_eq_ok_iff.1 text, rfl⟩
    · rintro ⟨held, -⟩
      obtain ⟨text, same, rfl⟩ := held bytes rfl
      rw [readFile_eq_ok_iff.2 same]
      rfl

/-- The remappings are read if their file holds a text, or is not there. -/
theorem exists_remappings_iff :
    (∃ lines, remappings p = .ok lines)
      ↔ ∀ bytes, (Tree.folder entries).HasRemappings bytes → ∃ text, bytes = encoded text := by
  simp only [remappings_eq_ok_iff folder wellNamed]
  constructor
  · rintro ⟨lines, held, -⟩ bytes here
    exact (held bytes here).imp fun _ h => h.1
  · intro held
    by_cases present : ∃ bytes, (Tree.folder entries).HasRemappings bytes
    · obtain ⟨bytes, here⟩ := present
      obtain ⟨text, same⟩ := held bytes here
      refine ⟨remappingsOf text, fun bytes' here' => ⟨text, ?_, rfl⟩,
        fun none => absurd here (none _)⟩
      rw [← same, ofBytes_inj (Option.some.inj (here.symm.trans here'))]
    · exact ⟨[], fun bytes here => absurd ⟨bytes, here⟩ present, fun _ => rfl⟩

end Folder

/-- The unit of a folder holds what is in the folder. -/
theorem heldBy_of_unitOf (folder : p.tree? = some (.folder entries)) (listed : p.unlisted? = none)
    (wellNamed : (Tree.folder entries).WellNamed)
    (parses : (Version.parse? (Text.trim asked)).isSome = true) {unit : BuildUnit}
    (there : unitOf p (some asked) = .ok unit) : (Tree.folder entries).HeldBy unit := by
  obtain ⟨sources, lines, read, remapped, rfl⟩ := (unitOf_eq_ok_iff folder listed parses).1 there
  have legible := (exists_sources_iff wellNamed).1 ⟨sources, read⟩
  obtain ⟨held, none⟩ := (remappings_eq_ok_iff folder wellNamed).1 remapped
  refine ⟨rfl, fun key => ?_, fun names bytes source => ?_, held, none⟩
  · show (∃ entry, (Dict.ofList sources).get? key = some entry) ↔ _
    simp only [get?_sources_eq_some_iff wellNamed read]
    constructor
    · rintro ⟨_, names, text, source, same, -⟩
      exact ⟨names, _, source, same⟩
    · rintro ⟨names, bytes, source, same⟩
      obtain ⟨text, rfl⟩ := legible names bytes source
      exact ⟨_, names, text, source, same, rfl⟩
  · obtain ⟨text, rfl⟩ := legible names bytes source
    exact ⟨text, rfl, (get?_sources_eq_some_iff wellNamed read).2 ⟨names, text, source, rfl, rfl⟩⟩

/-- There is a unit if all sources and the remappings hold texts. -/
theorem exists_unitOf_iff (folder : p.tree? = some (.folder entries)) (listed : p.unlisted? = none)
    (wellNamed : (Tree.folder entries).WellNamed)
    (parses : (Version.parse? (Text.trim asked)).isSome = true) :
    (∃ unit, unitOf p (some asked) = .ok unit)
      ↔ (∀ names bytes, (Tree.folder entries).HasSource names bytes → ∃ text, bytes = encoded text)
        ∧ ∀ bytes, (Tree.folder entries).HasRemappings bytes → ∃ text, bytes = encoded text := by
  rw [← exists_sources_iff wellNamed, ← exists_remappings_iff folder wellNamed]
  simp only [unitOf_eq_ok_iff folder listed parses]
  constructor
  · rintro ⟨_, sources, lines, read, remapped, -⟩
    exact ⟨⟨sources, read⟩, lines, remapped⟩
  · rintro ⟨⟨sources, read⟩, lines, remapped⟩
    exact ⟨_, sources, lines, read, remapped, rfl⟩

/-- The unit is the same when the folders list their entries in another order. -/
theorem unitOf_relisted (folder : p.tree? = some (.folder entries))
    (wellNamed : (Tree.folder entries).WellNamed) {entries' : List (String × Tree)}
    (relisted : (Tree.folder entries).Relisted (.folder entries')) :
    unitOf { p with tree? := some (.folder entries') } (some asked)
      = unitOf p (some asked) := by
  have remapped : remappings { p with tree? := some (.folder entries') } = remappings p := by
    unfold remappings
    rw [Project.file?, Project.file?, folder, Option.bind_some, Option.bind_some,
      relisted.file?_eq wellNamed]
    rfl
  simp only [unitOf, folder, Option.bind_some, Tree.entries?, readSources_tree, remapped,
    sourceFiles_relisted wellNamed relisted]

/-- **A folder becomes a unit that holds every visible source once.** There is a unit of it unless a
source or the list of remappings holds no text, whatever the order in which folders list their
entries. -/
theorem unitOf_folder (folder : p.tree? = some (.folder entries)) (listed : p.unlisted? = none)
    (wellNamed : (Tree.folder entries).WellNamed)
    (parses : (Version.parse? (Text.trim asked)).isSome = true) :
    (∀ unit, unitOf p (some asked) = .ok unit →
        unit.version = Text.trim asked ∧ (Tree.folder entries).HeldBy unit)
      ∧ (∀ names names' bytes bytes', (Tree.folder entries).HasSource names bytes →
        (Tree.folder entries).HasSource names' bytes' →
        Path.ofNames names = Path.ofNames names' → names = names')
      ∧ ((∃ e, unitOf p (some asked) = .error e)
        ↔ (∃ names bytes, (Tree.folder entries).HasSource names bytes
            ∧ ∀ text, bytes ≠ encoded text)
          ∨ ∃ bytes, (Tree.folder entries).HasRemappings bytes ∧ ∀ text, bytes ≠ encoded text)
      ∧ ∀ entries', (Tree.folder entries).Relisted (.folder entries') →
        unitOf { p with tree? := some (.folder entries') } (some asked)
          = unitOf p (some asked) := by
  refine ⟨fun unit there => ⟨?_, heldBy_of_unitOf folder listed wellNamed parses there⟩,
    fun _ _ _ _ h h' => h.path_inj wellNamed h', ?_, fun _ => unitOf_relisted folder wellNamed⟩
  · obtain ⟨_, _, -, -, rfl⟩ := (unitOf_eq_ok_iff folder listed parses).1 there
    rfl
  · have refused : (∃ e, unitOf p (some asked) = .error e)
        ↔ ¬ ∃ unit, unitOf p (some asked) = .ok unit := by
      cases unitOf p (some asked) <;> simp
    rw [refused, exists_unitOf_iff folder listed wellNamed parses, not_and_or]
    push Not
    rfl

end Reading

/-- A folder with a source in a folder of it, and with a hidden file that holds no text. -/
def library : List (String × Tree) :=
  [("lib", .folder [("B.SOL", .file (.ofBytes (encoded "library B \x7b\x7d")))]),
    (".env", .file (.ofBytes [0xff]))]

theorem wellNamed_library : (Tree.folder library).WellNamed :=
  ⟨by decide, by decide, ⟨by decide, by decide, ⟨_, rfl⟩, trivial⟩, by decide, ⟨_, rfl⟩, trivial⟩

theorem unitOf_folder_library :
    ∃ unit, unitOf ⟨".", "/work", some (.folder library), none, {}⟩ (some " 0.8.19\n") = .ok unit
      ∧ unit.document.sources.get? "lib/B.SOL" = some (.ofContent "library B \x7b\x7d") := by
  have parses : (Version.parse? (Text.trim " 0.8.19\n")).isSome = true := by decide
  obtain ⟨held, -, refused, -⟩ := unitOf_folder
    (p := ⟨".", "/work", some (.folder library), none, {}⟩) rfl rfl wellNamed_library parses
  cases found : unitOf ⟨".", "/work", some (.folder library), none, {}⟩ (some " 0.8.19\n") with
  | error e =>
    rcases refused.1 ⟨e, found⟩ with ⟨names, bytes, source, noText⟩ | ⟨bytes, here, -⟩
    · -- the one file that holds no text is hidden
      have mem := (Tree.mem_files_iff wellNamed_library).2 source.there
      rcases List.mem_cons.1 mem with first | later
      · have stored : Content.ofBytes bytes = .ofBytes (encoded "library B \x7b\x7d") :=
          (Prod.mk.inj first).2
        exact absurd (ofBytes_inj stored) (noText _)
      · obtain ⟨rfl, -⟩ := Prod.mk.inj (List.mem_singleton.1 later)
        exact absurd rfl (source.visible ".env" List.mem_cons_self)
    · cases here
  | ok unit =>
    have source : (Tree.folder library).HasSource ["lib", "B.SOL"] (encoded "library B \x7b\x7d") :=
      ⟨rfl, by decide, "B.SOL", ['B'], ['S', 'O', 'L'], rfl, rfl, nofun, rfl⟩
    obtain ⟨text, same, there⟩ := (held unit found).2.texts _ _ source
    rw [← encoded_inj same] at there
    exact ⟨unit, rfl, there⟩

end Sources

end FuzzBundle
