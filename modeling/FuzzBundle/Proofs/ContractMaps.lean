/-
  FuzzBundle.Proofs.ContractMaps — values per contract as a list of entries.

  `ContractMap.flatten` lists every value once, under the file and the contract that it is looked up
  by (`mem_flatten_iff`, `distinct_flatten`, `occurrences_eq`). A file and a contract are also named
  by one text, `qualified`; where contract names have no colon, the text says which ones it names
  (`qualified_injective`).
-/
import Mathlib.Data.List.Count
import FuzzBundle.Dict
import FuzzBundle.Proofs.ListReading

namespace FuzzBundle

/-! ## §1. Entries -/

/-- What has a value is what is among the keys. -/
theorem Dict.isSome_get?_iff {α : Type u} {d : Dict α} {key : String} :
    (d.get? key).isSome ↔ key ∈ d.keys := by
  rw [Option.isSome_iff_exists, Dict.keys, List.mem_map]
  constructor
  · rintro ⟨value, there⟩
    exact ⟨(key, value), Dict.mem_toList_iff.2 there, rfl⟩
  · rintro ⟨⟨_, value⟩, there, rfl⟩
    exact ⟨value, Dict.mem_toList_iff.1 there⟩

namespace ContractMap

variable {α : Type}

/-- A file whose contracts are set has these and no others. -/
theorem find?_insert (m : ContractMap α) (file : String) (contracts : Dict α) (f c : String) :
    ContractMap.find? (m.insert file contracts) f c
      = if file = f then contracts.get? c else m.find? f c := by
  unfold find?
  rw [Dict.get?_insert]
  split <;> rfl

/-- Maps with the same files, with the same contracts in each, and with the same values are equal.
The files have to be compared on their own, because one without contracts has no value. -/
theorem ext_find? {m m' : ContractMap α} (files : m.keys = m'.keys)
    (found : ∀ file contract, m.find? file contract = m'.find? file contract) : m = m' := by
  have present (file : String) : (m.get? file).isSome ↔ (m'.get? file).isSome := by
    rw [Dict.isSome_get?_iff, Dict.isSome_get?_iff, files]
  refine Dict.ext_get? fun file => ?_
  have own := found file
  have both := present file
  unfold find? at own
  cases left : m.get? file with
  | none =>
    rw [left] at both
    exact (Option.not_isSome_iff_eq_none.1 fun some => nomatch both.2 some).symm
  | some contracts =>
    rw [left] at both own
    obtain ⟨contracts', right⟩ := Option.isSome_iff_exists.1 (both.1 rfl)
    rw [right] at own ⊢
    exact congrArg some (Dict.ext_get? own)

/-- Whether an entry is that of a contract of a file. -/
def isAt (file contract : String) (entry : String × String × α) : Bool :=
  entry.1 == file && entry.2.1 == contract

theorem isAt_iff {file contract : String} {entry : String × String × α} :
    isAt file contract entry = true ↔ entry.1 = file ∧ entry.2.1 = contract := by
  simp [isAt]

/-- How often a contract of a file has an entry. -/
def occurrences (m : ContractMap α) (file contract : String) : Nat :=
  m.flatten.countP (isAt file contract)

/-- The entries are the values that are found. -/
theorem mem_flatten_iff {m : ContractMap α} {file contract : String} {value : α} :
    (file, contract, value) ∈ m.flatten ↔ m.find? file contract = some value := by
  unfold flatten find?
  rw [List.mem_flatMap, Option.bind_eq_some_iff]
  constructor
  · rintro ⟨⟨f, contracts⟩, hf, he⟩
    obtain ⟨⟨c, v⟩, hc, heq⟩ := List.mem_map.1 he
    cases heq
    exact ⟨contracts, Dict.mem_toList_iff.1 hf, Dict.mem_toList_iff.1 hc⟩
  · rintro ⟨contracts, hf, hc⟩
    exact ⟨(file, contracts), Dict.mem_toList_iff.2 hf,
      List.mem_map.2 ⟨(contract, value), Dict.mem_toList_iff.2 hc, rfl⟩⟩

/-- Whether an entry comes before another one, by file and then by contract. -/
def Before (a b : String × String × α) : Prop := a.1 < b.1 ∨ a.1 = b.1 ∧ a.2.1 < b.2.1

/-- The entries stand in their order. -/
theorem ascending_flatten (m : ContractMap α) : m.flatten.Pairwise Before := by
  unfold flatten
  rw [List.pairwise_flatMap]
  constructor
  · -- within a file the contracts ascend, and across files these do
    intro entry _
    rw [List.pairwise_map]
    exact entry.2.ascending.imp fun hlt => .inr ⟨rfl, hlt⟩
  · refine List.Pairwise.imp ?_ m.ascending
    intro x y hlt a ha b hb
    obtain ⟨a', _, rfl⟩ := List.mem_map.1 ha
    obtain ⟨b', _, rfl⟩ := List.mem_map.1 hb
    exact .inl hlt

/-- No contract of a file has two entries. -/
theorem distinct_flatten (m : ContractMap α) :
    m.flatten.Pairwise fun a b => ¬(a.1 = b.1 ∧ a.2.1 = b.2.1) := by
  refine (ascending_flatten m).imp ?_
  rintro a b (file | ⟨_, contract⟩) ⟨sameFile, sameContract⟩
  · exact String.lt_irrefl _ (sameFile ▸ file)
  · exact String.lt_irrefl _ (sameContract ▸ contract)

/-- **The entries of a contract of a file are its value, once, or there are none.** -/
theorem filter_isAt_flatten (m : ContractMap α) (file contract : String) :
    m.flatten.filter (isAt file contract)
      = ((m.find? file contract).map fun value => (file, contract, value)).toList := by
  have found : ∀ entry ∈ m.flatten.filter (isAt file contract),
      ∃ value, entry = (file, contract, value) ∧ m.find? file contract = some value := by
    rintro ⟨f, c, value⟩ he
    obtain ⟨hmem, hat⟩ := List.mem_filter.1 he
    obtain ⟨rfl, rfl⟩ := isAt_iff.1 hat
    exact ⟨value, rfl, mem_flatten_iff.1 hmem⟩
  have distinct := (distinct_flatten m).filter (isAt file contract)
  cases hl : m.flatten.filter (isAt file contract) with
  | nil =>
    cases hv : m.find? file contract with
    | none => rfl
    | some value =>
      have mem := List.mem_filter.2 ⟨mem_flatten_iff.2 hv, isAt_iff.2 ⟨rfl, rfl⟩⟩
      rw [hl] at mem
      cases mem
  | cons first rest =>
    rw [hl] at found distinct
    obtain ⟨value, rfl, hv⟩ := found first List.mem_cons_self
    rw [hv]
    cases rest with
    | nil => rfl
    | cons second rest =>
      -- two entries of one contract cannot stand beside each other
      obtain ⟨other, rfl, _⟩ := found second (List.mem_cons_of_mem _ List.mem_cons_self)
      exact absurd ⟨rfl, rfl⟩ ((List.pairwise_cons.1 distinct).1 _ List.mem_cons_self)

/-- The first entry of a contract of a file is the one with its value. -/
theorem find?_isAt_flatten (m : ContractMap α) (file contract : String) :
    m.flatten.find? (isAt file contract)
      = (m.find? file contract).map fun value => (file, contract, value) := by
  rw [← List.head?_filter, filter_isAt_flatten, Option.head?_toList]

/-- **A value is listed once, and nothing is listed that has no value.** -/
theorem occurrences_eq (m : ContractMap α) (file contract : String) :
    m.occurrences file contract = if (m.find? file contract).isSome then 1 else 0 := by
  rw [occurrences, List.countP_eq_length_filter, filter_isAt_flatten]
  cases m.find? file contract <;> rfl

end ContractMap

/-! ## §2. Names of contracts -/

/-- The text that names a contract of a file. -/
def qualified (file contract : String) : String := file ++ ":" ++ contract

/-- A contract name without a colon. -/
def ColonFree (contract : String) : Prop := ':' ∉ contract.toList

instance (contract : String) : Decidable (ColonFree contract) :=
  inferInstanceAs (Decidable (¬ _ ∈ _))

theorem qualified_injective {file file' contract contract' : String} (hc : ColonFree contract)
    (hc' : ColonFree contract') (h : qualified file contract = qualified file' contract') :
    file = file' ∧ contract = contract' := by
  have chars : file.toList ++ ':' :: contract.toList = file'.toList ++ ':' :: contract'.toList := by
    have := congrArg String.toList h
    simpa [qualified] using this
  obtain ⟨hf, hcc⟩ := append_cons_inj_of_notMem_right hc hc' chars
  exact ⟨String.toList_inj.1 hf, String.toList_inj.1 hcc⟩

end FuzzBundle
