/-
  FuzzBundle.Proofs.ResolutionViews — the two lists that a resolution map is read as.

  `addresses` and `unresolved` are built apart from each other, the one by insertion and the other
  as texts. Together they hold every contract of the map once (`partitioned`): the first has it
  where it is resolved, the second where it is not. The texts name their contracts only where these
  have no colon in their names.
-/
import FuzzBundle.Deployment.Resolution
import FuzzBundle.Proofs.ContractMaps

namespace FuzzBundle

/-- The address of a resolution that has one. -/
def Resolution.address? : Resolution → Option String
  | .resolved address _ => some address
  | .unresolved => none

namespace ResolutionMap

/-! ## §1. Addresses -/

/-- Adding the addresses of distinct entries changes what is found for a contract only where its
entry is resolved. -/
theorem find?_foldl_addAddress {entries : List (String × String × Resolution)}
    (distinct : entries.Pairwise fun a b => ¬(a.1 = b.1 ∧ a.2.1 = b.2.1))
    (found : ContractMap String) (file contract : String) :
    (entries.foldl addAddress found).find? file contract
      = (((entries.find? (ContractMap.isAt file contract)).bind (·.2.2.address?)).orElse
          fun _ => found.find? file contract) := by
  induction entries generalizing found with
  | nil => rfl
  | cons entry rest ih =>
    obtain ⟨apart, distinct⟩ := List.pairwise_cons.1 distinct
    rw [List.foldl_cons, ih distinct]
    by_cases h : ContractMap.isAt file contract entry = true
    · -- the entry is the only one of its contract, so that nothing after it is added over it
      have absent : rest.find? (ContractMap.isAt file contract) = none := by
        rw [List.find?_eq_none]
        intro other ho hat
        obtain ⟨hf, hc⟩ := ContractMap.isAt_iff.1 h
        obtain ⟨hf', hc'⟩ := ContractMap.isAt_iff.1 hat
        exact apart other ho ⟨hf.trans hf'.symm, hc.trans hc'.symm⟩
      rw [List.find?_cons_of_pos h, absent, Option.bind_none, Option.bind_some]
      obtain ⟨f, c, r⟩ := entry
      obtain ⟨rfl, rfl⟩ := ContractMap.isAt_iff.1 h
      cases r with
      | unresolved => rfl
      | resolved address distance =>
        rw [addAddress]
        simp [ContractMap.find?_put, Resolution.address?]
    · rw [List.find?_cons_of_neg h]
      obtain ⟨f, c, r⟩ := entry
      cases r with
      | unresolved => rfl
      | resolved address distance =>
        rw [addAddress]
        simp only [ContractMap.find?_put]
        rw [if_neg fun hn => h (ContractMap.isAt_iff.2 hn)]

/-- **The addresses are those of the resolved contracts.** -/
theorem find?_addresses (m : ResolutionMap) (file contract : String) :
    m.addresses.find? file contract = (m.find? file contract).bind Resolution.address? := by
  rw [addresses, find?_foldl_addAddress (ContractMap.distinct_flatten m),
    ContractMap.find?_isAt_flatten]
  cases m.find? file contract with
  | none => rfl
  | some r => cases r <;> rfl

/-! ## §2. Contracts that were not found -/

/-- The text for an entry that is not resolved. -/
def unresolvedName? (entry : String × String × Resolution) : Option String :=
  match entry.2.2 with
  | .unresolved => some (qualified entry.1 entry.2.1)
  | .resolved _ _ => none

theorem unresolved_eq (m : ResolutionMap) : m.unresolved = m.flatten.filterMap unresolvedName? :=
  rfl

theorem unresolvedName?_eq_some_iff {entry : String × String × Resolution} {name : String} :
    unresolvedName? entry = some name
      ↔ entry.2.2 = .unresolved ∧ qualified entry.1 entry.2.1 = name := by
  obtain ⟨f, c, r⟩ := entry
  cases r <;> simp [unresolvedName?]

/-- The texts name the contracts that are not resolved. -/
theorem mem_unresolved_iff {m : ResolutionMap} {name : String} :
    name ∈ m.unresolved ↔ ∃ file contract,
      name = qualified file contract ∧ m.find? file contract = some .unresolved := by
  rw [unresolved_eq, List.mem_filterMap]
  constructor
  · rintro ⟨⟨f, c, r⟩, he, hn⟩
    obtain ⟨hr, rfl⟩ := unresolvedName?_eq_some_iff.1 hn
    exact ⟨f, c, rfl, hr ▸ ContractMap.mem_flatten_iff.1 he⟩
  · rintro ⟨f, c, rfl, h⟩
    exact ⟨(f, c, .unresolved), ContractMap.mem_flatten_iff.2 h,
      unresolvedName?_eq_some_iff.2 ⟨rfl, rfl⟩⟩

/-- No contract of the map has a colon in its name. -/
def ColonFreeNames (m : ResolutionMap) : Prop :=
  ∀ file contract, (m.find? file contract).isSome → ColonFree contract

/-- **A contract that is not resolved is named once, and no other is.** -/
theorem count_unresolved {m : ResolutionMap} (names : m.ColonFreeNames) (file : String)
    {contract : String} (hc : ColonFree contract) :
    m.unresolved.count (qualified file contract)
      = if m.find? file contract = some .unresolved then 1 else 0 := by
  by_cases h : m.find? file contract = some .unresolved
  · have once := ContractMap.occurrences_eq m file contract
    rw [h, Option.isSome_some, if_pos rfl] at once
    -- the text is written for the entries of this contract and for no others
    rw [if_pos h, ← once, unresolved_eq, List.count_filterMap]
    refine List.countP_congr fun entry he => ?_
    obtain ⟨f, c, r⟩ := entry
    have found := ContractMap.mem_flatten_iff.1 he
    rw [beq_iff_eq, unresolvedName?_eq_some_iff, ContractMap.isAt_iff]
    constructor
    · rintro ⟨_, hn⟩
      exact qualified_injective (names f c (by rw [found]; rfl)) hc hn
    · rintro ⟨rfl, rfl⟩
      exact ⟨Option.some.inj (found.symm.trans h), rfl⟩
  · rw [if_neg h, List.count_eq_zero, mem_unresolved_iff]
    rintro ⟨f, c, hn, hf⟩
    obtain ⟨rfl, rfl⟩ := qualified_injective hc (names f c (by rw [hf]; rfl)) hn
    exact h hf

/-! ## §3. Both together -/

/-- The two readings of a map hold every contract of it once and nothing else. -/
structure Partitioned (m : ResolutionMap) : Prop where
  once : ∀ file contract, ColonFree contract →
    m.addresses.occurrences file contract + m.unresolved.count (qualified file contract)
      = if (m.find? file contract).isSome then 1 else 0
  address : ∀ file contract address, m.addresses.find? file contract = some address
    ↔ ∃ distance, m.find? file contract = some (.resolved address distance)
  named : ∀ name, name ∈ m.unresolved ↔ ∃ file contract,
    name = qualified file contract ∧ m.find? file contract = some .unresolved

theorem partitioned {m : ResolutionMap} (names : m.ColonFreeNames) : m.Partitioned := by
  refine ⟨?_, ?_, fun name => mem_unresolved_iff⟩
  · intro file contract hc
    rw [ContractMap.occurrences_eq, find?_addresses, count_unresolved names file hc]
    cases m.find? file contract with
    | none => rfl
    | some r => cases r <;> rfl
  · intro file contract address
    rw [find?_addresses]
    cases m.find? file contract with
    | none => simp
    | some r => cases r <;> simp [Resolution.address?]

end ResolutionMap

end FuzzBundle
