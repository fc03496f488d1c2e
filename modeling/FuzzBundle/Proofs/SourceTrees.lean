/-
  FuzzBundle.Proofs.SourceTrees — what is found when the folders of a tree are listed.

  The folders of a tree are listed one after the other, and those found on the way are put aside
  until later. Whatever the order, everything below a folder is found once: what is still to come is
  always what lies below the folders put aside (`Sources.collect_perm`). That these are the files
  that names lead to holds in a tree in which no folder has two entries of one name
  (`Tree.mem_files_iff`).

  The entries of a folder come in no particular order. Two trees that differ in nothing but that
  (`Relisted`) have the same files up to their order, and sorting them by their names leaves one
  order (`Sources.sourceFiles_relisted`).

  Main statements: `Sources.mem_sourceFiles_iff`, `Sources.sourceFiles_relisted`.
-/
import FuzzBundle.Project.Sources
import Mathlib.Data.List.Nodup
import Mathlib.Data.List.Perm.Basic

namespace FuzzBundle

/-! ## §1. Entries with different names -/

theorem Entries.get?_eq_some_iff_mem {entries : Entries α} (distinct : (entries.map Prod.fst).Nodup)
    {key : String} {value : α} :
    Entries.get? entries key = some value ↔ (key, value) ∈ entries := by
  constructor
  · exact Entries.mem_of_get?
  · intro mem
    induction entries with
    | nil => cases mem
    | cons entry rest ih =>
      obtain ⟨k, v⟩ := entry
      obtain ⟨new, distinct⟩ := List.nodup_cons.1 distinct
      rw [Entries.get?_cons]
      rcases List.mem_cons.1 mem with first | later
      · cases first
        rw [if_pos rfl]
      · have other : k ≠ key := fun same => new (List.mem_map.2 ⟨_, later, same.symm⟩)
        rw [if_neg other, ih distinct later]

namespace Tree

mutual

/-- In every folder the names differ and hold no slash, and every file has bytes in it. -/
def WellNamed : Tree → Prop
  | .file content => ∃ bytes, content = .ofBytes bytes
  | .folder entries => (entries.map Prod.fst).Nodup ∧ WellNamedEntries entries

/-- All entries are well named. -/
def WellNamedEntries : List (String × Tree) → Prop
  | [] => True
  | (name, t) :: rest => '/' ∉ name.toList ∧ WellNamed t ∧ WellNamedEntries rest

end

theorem wellNamedEntries_iff {entries : List (String × Tree)} :
    WellNamedEntries entries ↔ ∀ entry ∈ entries, '/' ∉ entry.1.toList ∧ entry.2.WellNamed := by
  induction entries with
  | nil => exact iff_of_true trivial nofun
  | cons entry rest ih => rw [WellNamedEntries, List.forall_mem_cons, ih, and_assoc]

theorem WellNamedEntries.of_mem {entries : List (String × Tree)} (h : WellNamedEntries entries)
    {entry : String × Tree} (mem : entry ∈ entries) :
    '/' ∉ entry.1.toList ∧ entry.2.WellNamed := wellNamedEntries_iff.1 h entry mem

/-! ## §2. The files of a tree -/

theorem filesIn_eq_flatMap (entries : List (String × Tree)) :
    filesIn entries
      = entries.flatMap fun entry => entry.2.files.map fun f => (entry.1 :: f.1, f.2) := by
  induction entries with
  | nil => rfl
  | cons entry rest ih => rw [filesIn, ih, List.flatMap_cons]

/-- What leads to a file in a folder begins with the name of an entry. -/
theorem mem_filesIn_iff {entries : List (String × Tree)} {names : List String} {content : Content} :
    (names, content) ∈ filesIn entries
      ↔ ∃ name t rest, (name, t) ∈ entries ∧ names = name :: rest ∧ (rest, content) ∈ t.files := by
  rw [filesIn_eq_flatMap, List.mem_flatMap]
  constructor
  · rintro ⟨⟨name, t⟩, mem, there⟩
    obtain ⟨⟨rest, content'⟩, inner, same⟩ := List.mem_map.1 there
    cases same
    exact ⟨name, t, rest, mem, rfl, inner⟩
  · rintro ⟨name, t, rest, mem, rfl, inner⟩
    exact ⟨(name, t), mem, List.mem_map.2 ⟨(rest, content), inner, rfl⟩⟩

/-- The files of a tree are those that names lead to. -/
theorem mem_files_iff {t : Tree} (wellNamed : t.WellNamed) {names : List String}
    {content : Content} : (names, content) ∈ t.files ↔ t.file? names = some content := by
  induction names generalizing t with
  | nil =>
    cases t with
    | file c => simp [files, file?, at?, content?, eq_comm]
    | folder entries =>
      rw [files, mem_filesIn_iff]
      constructor
      · rintro ⟨_, _, _, -, empty, -⟩
        cases empty
      · intro there
        cases there
  | cons name rest ih =>
    cases t with
    | file c => simp [files, file?, at?, child?]
    | folder entries =>
      rw [WellNamed] at wellNamed
      rw [files, mem_filesIn_iff, file?, at?, child?]
      constructor
      · rintro ⟨_, t, _, mem, same, inner⟩
        cases same
        rw [(Entries.get?_eq_some_iff_mem wellNamed.1).2 mem]
        exact (ih (wellNamed.2.of_mem mem).2).1 inner
      · intro there
        cases found : Entries.get? entries name with
        | none =>
          rw [found] at there
          cases there
        | some t =>
          rw [found] at there
          have mem := Entries.mem_of_get? found
          exact ⟨name, t, rest, mem, rfl, (ih (wellNamed.2.of_mem mem).2).2 there⟩

/-- Names that lead to a file hold no slash, and the file has bytes in it. -/
theorem WellNamed.of_file? {t : Tree} (wellNamed : t.WellNamed) {names : List String}
    {content : Content} (there : t.file? names = some content) :
    (∀ name ∈ names, '/' ∉ name.toList) ∧ ∃ bytes, content = .ofBytes bytes := by
  induction names generalizing t with
  | nil =>
    cases t with
    | file c =>
      cases there
      exact ⟨nofun, wellNamed⟩
    | folder entries => cases there
  | cons name rest ih =>
    cases t with
    | file c => cases there
    | folder entries =>
      rw [WellNamed] at wellNamed
      rw [file?, at?, child?] at there
      cases found : Entries.get? entries name with
      | none =>
        rw [found] at there
        cases there
      | some t =>
        rw [found] at there
        obtain ⟨proper, inner⟩ := wellNamed.2.of_mem (Entries.mem_of_get? found)
        obtain ⟨slashFree, bytes⟩ := ih inner there
        exact ⟨List.forall_mem_cons.2 ⟨proper, slashFree⟩, bytes⟩

/-! ## §3. Trees listed in another order -/

mutual

/-- Two trees differ in nothing but the order in which folders list their entries. -/
inductive Relisted : Tree → Tree → Prop where
  | file (content : Content) : Relisted (.file content) (.file content)
  | folder {entries between entries' : List (String × Tree)} :
      RelistedEach entries between → between.Perm entries' →
      Relisted (.folder entries) (.folder entries')

/-- So do the trees of two lists of entries, one by one. -/
inductive RelistedEach : List (String × Tree) → List (String × Tree) → Prop where
  | nil : RelistedEach [] []
  | cons {name : String} {t t' : Tree} {rest rest' : List (String × Tree)} :
      Relisted t t' → RelistedEach rest rest' →
        RelistedEach ((name, t) :: rest) ((name, t') :: rest')

end

mutual

theorem Relisted.files_perm {t t' : Tree} : Relisted t t' → t.files.Perm t'.files
  | .file _ => List.Perm.refl _
  | .folder each perm => by
    rw [files, files]
    refine each.filesIn_perm.trans ?_
    rw [filesIn_eq_flatMap, filesIn_eq_flatMap]
    exact perm.flatMap_right _

theorem RelistedEach.filesIn_perm {entries entries' : List (String × Tree)} :
    RelistedEach entries entries' → (filesIn entries).Perm (filesIn entries')
  | .nil => List.Perm.refl _
  | .cons first rest => by
    rw [filesIn, filesIn]
    exact (first.files_perm.map _).append rest.filesIn_perm

end

theorem RelistedEach.names_eq {entries entries' : List (String × Tree)} :
    RelistedEach entries entries' → entries.map Prod.fst = entries'.map Prod.fst
  | .nil => rfl
  | .cons _ rest => congrArg (List.cons _) rest.names_eq

mutual

theorem Relisted.wellNamed {t t' : Tree} : Relisted t t' → t.WellNamed → t'.WellNamed
  | .file _, h => h
  | .folder each perm, h => by
    rw [WellNamed] at h ⊢
    rw [each.names_eq] at h
    refine ⟨(perm.map Prod.fst).nodup_iff.1 h.1, wellNamedEntries_iff.2 fun entry mem => ?_⟩
    exact (each.wellNamedEntries h.2).of_mem (perm.mem_iff.2 mem)

theorem RelistedEach.wellNamedEntries {entries entries' : List (String × Tree)} :
    RelistedEach entries entries' → WellNamedEntries entries → WellNamedEntries entries'
  | .nil, h => h
  | .cons first rest, h => by
    rw [WellNamedEntries] at h ⊢
    exact ⟨h.1, first.wellNamed h.2.1, rest.wellNamedEntries h.2.2⟩

end

/-- The same names lead to the same files. -/
theorem Relisted.file?_eq {t t' : Tree} (h : Relisted t t') (wellNamed : t.WellNamed)
    (names : List String) : t'.file? names = t.file? names := by
  refine Option.ext fun content => ?_
  rw [← mem_files_iff wellNamed, ← mem_files_iff (h.wellNamed wellNamed), h.files_perm.mem_iff]

end Tree

/-! ## §4. Folders listed one after the other -/

namespace Sources

/-- The names of a source: none of them is hidden, and the last one has the extension. -/
def isSource (names : List String) : Bool :=
  names.all (fun name => !Path.isHidden name) && names.getLast?.any (Path.hasExtension "sol")

/-- All sources below a folder that was found. -/
def below (folder : Found) : List (List String × Content) :=
  ((Tree.filesIn folder.entries).filter fun f => isSource f.1).map fun f =>
    (folder.names ++ f.1, f.2)

theorem isSource_cons {name : String} {rest : List String} (present : rest ≠ []) :
    isSource (name :: rest) = (!Path.isHidden name && isSource rest) := by
  obtain ⟨next, more, rfl⟩ := List.exists_cons_of_ne_nil present
  rw [isSource, isSource, List.all_cons, List.getLast?_cons_cons, Bool.and_assoc]

theorem isSource_singleton (name : String) :
    isSource [name] = (!Path.isHidden name && Path.hasExtension "sol" name) := by
  simp [isSource]

/-- The sources below the first entry of a folder, and those below the other entries. -/
theorem below_cons (names : List String) (entry : String × Tree) (rest : List (String × Tree)) :
    below ⟨names, entry :: rest⟩ = below ⟨names, [entry]⟩ ++ below ⟨names, rest⟩ := by
  simp only [below, Tree.filesIn_eq_flatMap, List.flatMap_cons, List.flatMap_nil, List.append_nil,
    List.filter_append, List.map_append]

theorem below_hidden (names : List String) {name : String} (t : Tree)
    (hidden : Path.isHidden name = true) : below ⟨names, [(name, t)]⟩ = [] := by
  have none : ∀ f ∈ Tree.filesIn [(name, t)], ¬ isSource f.1 = true := by
    rintro ⟨path, content⟩ mem
    obtain ⟨_, _, rest, first, rfl, -⟩ := Tree.mem_filesIn_iff.1 mem
    cases List.mem_singleton.1 first
    simp [isSource, hidden]
  rw [below, List.filter_eq_nil_iff.2 none]
  rfl

theorem below_file (names : List String) {name : String} (content : Content)
    (visible : Path.isHidden name = false) :
    below ⟨names, [(name, .file content)]⟩
      = if Path.hasExtension "sol" name then [(names ++ [name], content)] else [] := by
  have alone : Tree.filesIn [(name, .file content)] = [([name], content)] := rfl
  rw [below, alone, List.filter_singleton, isSource_singleton, visible, Bool.not_false,
    Bool.true_and]
  cases Path.hasExtension "sol" name <;> rfl

theorem below_folder (names : List String) {name : String} (entries : List (String × Tree))
    (visible : Path.isHidden name = false) :
    below ⟨names, [(name, .folder entries)]⟩ = below ⟨names ++ [name], entries⟩ := by
  have inside : Tree.filesIn [(name, .folder entries)]
      = (Tree.filesIn entries).map fun f => (name :: f.1, f.2) := List.append_nil _
  -- what is in the folder has a name, and that name decides
  have same : ∀ f ∈ Tree.filesIn entries, isSource (name :: f.1) = isSource f.1 := by
    rintro ⟨path, content⟩ mem
    obtain ⟨_, _, rest, -, rfl, -⟩ := Tree.mem_filesIn_iff.1 mem
    rw [isSource_cons (List.cons_ne_nil _ _), visible, Bool.not_false, Bool.true_and]
  have filtered :
      (Tree.filesIn entries).filter ((fun f => isSource f.1) ∘ fun f => (name :: f.1, f.2))
        = (Tree.filesIn entries).filter fun f => isSource f.1 := List.filter_congr same
  rw [below, inside, List.filter_map, below, List.map_map, filtered]
  refine List.map_congr_left fun f _ => ?_
  show (names ++ name :: f.1, f.2) = (names ++ [name] ++ f.1, f.2)
  rw [List.append_assoc, List.singleton_append]

/-- What lies below a folder is the sources in it and what lies below the folders in it. -/
theorem below_perm (folder : Found) :
    (below folder).Perm (filesIn folder ++ (foldersIn folder).flatMap below) := by
  obtain ⟨names, entries⟩ := folder
  induction entries with
  | nil => exact List.Perm.refl _
  | cons entry rest ih =>
    obtain ⟨name, t⟩ := entry
    rw [below_cons]
    cases hidden : Path.isHidden name with
    | true =>
      rw [below_hidden names t hidden]
      simpa [filesIn, foldersIn, hidden] using ih
    | false =>
      cases t with
      | file content =>
        rw [below_file names content hidden]
        by_cases named : Path.hasExtension "sol" name = true
        · simpa [filesIn, foldersIn, hidden, named] using ih
        · simpa [filesIn, foldersIn, hidden, named] using ih
      | folder entries =>
        rw [below_folder names entries hidden]
        have step := (ih.append_left (below ⟨names ++ [name], entries⟩)).trans
          (List.perm_append_comm_assoc _ _ _)
        simpa [filesIn, foldersIn, hidden] using step

/-- **Everything below the folders that are listed is found**, and nothing twice. -/
theorem collect_perm (pending : List Found) : (collect pending).Perm (pending.flatMap below) := by
  induction pending using collect.induct with
  | case1 => rw [collect]; exact List.Perm.refl _
  | case2 folder rest ih =>
    rw [collect, List.flatMap_cons]
    rw [List.flatMap_append] at ih
    have inside : ((foldersIn folder).reverse.flatMap below).Perm
        ((foldersIn folder).flatMap below) := (List.reverse_perm _).flatMap_right _
    have all := (ih.trans (inside.append_right _)).append_left (filesIn folder)
    rw [← List.append_assoc] at all
    exact all.trans ((below_perm folder).symm.append_right _)

/-! ## §5. Sources in order -/

theorem inOrder_cons_iff {a b : String} {as bs : List String} :
    Path.inOrder (a :: as) (b :: bs) = true ↔ a < b ∨ a = b ∧ Path.inOrder as bs = true := by
  rw [Path.inOrder]
  by_cases less : a < b
  · simp [less]
  · by_cases same : a = b <;> simp [less, same]

theorem inOrder_trans {as bs cs : List String} (h : Path.inOrder as bs = true)
    (h' : Path.inOrder bs cs = true) : Path.inOrder as cs = true := by
  induction as generalizing bs cs with
  | nil => rfl
  | cons a as ih =>
    cases bs with
    | nil => cases h
    | cons b bs =>
      cases cs with
      | nil => cases h'
      | cons c cs =>
        rw [inOrder_cons_iff] at h h' ⊢
        rcases h with less | ⟨rfl, more⟩
        · rcases h' with less' | ⟨rfl, -⟩
          · exact .inl (String.lt_trans less less')
          · exact .inl less
        · exact h'.imp_right fun ⟨same, more'⟩ => ⟨same, ih more more'⟩

theorem inOrder_total (as bs : List String) :
    Path.inOrder as bs = true ∨ Path.inOrder bs as = true := by
  induction as generalizing bs with
  | nil => exact .inl rfl
  | cons a as ih =>
    cases bs with
    | nil => exact .inr rfl
    | cons b bs =>
      rw [inOrder_cons_iff, inOrder_cons_iff]
      by_cases less : a < b
      · exact .inl (.inl less)
      · by_cases greater : b < a
        · exact .inr (.inl greater)
        · have same : a = b :=
            String.le_antisymm (String.not_lt.1 greater) (String.not_lt.1 less)
          exact (ih bs).imp (fun more => .inr ⟨same, more⟩) fun more => .inr ⟨same.symm, more⟩

/-- Two paths that may stand before each other are the same. -/
theorem inOrder_antisymm {as bs : List String} (h : Path.inOrder as bs = true)
    (h' : Path.inOrder bs as = true) : as = bs := by
  induction as generalizing bs with
  | nil =>
    cases bs with
    | nil => rfl
    | cons b bs => cases h'
  | cons a as ih =>
    cases bs with
    | nil => cases h
    | cons b bs =>
      rw [inOrder_cons_iff] at h h'
      rcases h with less | ⟨rfl, more⟩
      · rcases h' with less' | ⟨rfl, -⟩
        · exact absurd less' (String.lt_asymm less)
        · exact absurd less (String.lt_irrefl b)
      · rcases h' with less' | ⟨-, more'⟩
        · exact absurd less' (String.lt_irrefl a)
        · rw [ih more more']

/-- Sources with the names that lead to them, of which no two are the same, have one order. -/
theorem eq_of_perm_of_inOrder {files files' : List (List String × Content)}
    (perm : files.Perm files')
    (distinct : ∀ f ∈ files, ∀ g ∈ files, f.1 = g.1 → f = g)  :
    files.mergeSort (fun a b => Path.inOrder a.1 b.1)
      = files'.mergeSort (fun a b => Path.inOrder a.1 b.1) := by
  have sorted (l : List (List String × Content)) :
      (l.mergeSort fun a b => Path.inOrder a.1 b.1).Pairwise fun a b =>
        Path.inOrder a.1 b.1 = true := by
    refine List.pairwise_mergeSort (fun a b c => ?_) (fun a b => ?_) l
    · exact inOrder_trans
    · rw [Bool.or_eq_true]
      exact inOrder_total a.1 b.1
  refine List.Perm.eq_of_pairwise (fun f g hf hg fg gf => ?_) (sorted files) (sorted files')
    ((List.mergeSort_perm files _).trans (perm.trans (List.mergeSort_perm files' _).symm))
  have inFiles := (List.mergeSort_perm files _).mem_iff.1 hf
  have alsoIn := perm.mem_iff.2 ((List.mergeSort_perm files' _).mem_iff.1 hg)
  exact distinct f inFiles g alsoIn (inOrder_antisymm fg gf)

/-- The sources of a folder are the files that visible names with the extension lead to. -/
theorem mem_sourceFiles_iff {entries : List (String × Tree)}
    (wellNamed : (Tree.folder entries).WellNamed) {names : List String} {content : Content} :
    (names, content) ∈ sourceFiles entries
      ↔ (Tree.folder entries).file? names = some content ∧ isSource names = true := by
  rw [sourceFiles, (List.mergeSort_perm _ _).mem_iff, (collect_perm _).mem_iff,
    List.flatMap_singleton, ← Tree.mem_files_iff wellNamed, Tree.files]
  simp [below]

/-- **The order in which folders list their entries does not matter.** -/
theorem sourceFiles_relisted {entries entries' : List (String × Tree)}
    (wellNamed : (Tree.folder entries).WellNamed)
    (relisted : (Tree.folder entries).Relisted (.folder entries')) :
    sourceFiles entries' = sourceFiles entries := by
  have perm : (collect [⟨[], entries⟩]).Perm (collect [⟨[], entries'⟩]) := by
    refine (collect_perm _).trans (List.Perm.trans ?_ (collect_perm _).symm)
    rw [List.flatMap_singleton, List.flatMap_singleton]
    exact (relisted.files_perm.filter _).map _
  refine (eq_of_perm_of_inOrder perm fun f hf g hg same => ?_).symm
  have found {f : List String × Content} (mem : f ∈ collect [⟨[], entries⟩]) :
      (Tree.folder entries).file? f.1 = some f.2 :=
    ((mem_sourceFiles_iff wellNamed).1 ((List.mergeSort_perm _ _).mem_iff.2 mem)).1
  exact Prod.ext same (Option.some.inj ((found hf).symm.trans (same ▸ found hg)))

end Sources

end FuzzBundle
