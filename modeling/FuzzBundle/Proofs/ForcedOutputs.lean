/-
  FuzzBundle.Proofs.ForcedOutputs — what forcing outputs does to a selection.

  At a place of a selection the outputs that are lacking are appended to those that are there
  (`withMissing_eq`), so a place that has them all stays as it is. After outputs were forced they
  are selected, and where they are selected already nothing is forced: forcing once is enough.
  Only two places are touched, and one equation says what is found at every place afterwards
  (`InputSettings.find?_forceOutputs`).

  Main statements: `InputSettings.hasForcedOutputs_forceOutputs`,
  `InputSettings.forceOutputs_of_hasForcedOutputs`, `InputSettings.forceOutputs_completes`.
-/
import FuzzBundle.Compiler.Input

namespace FuzzBundle

/-! ## §1. Lists of outputs -/

/-- What a list lacks is appended to it, in the order in which it is required. -/
theorem withMissing_eq (selected : List String) {required : List String}
    (distinct : required.Nodup) :
    withMissing selected required
      = selected ++ required.filter fun output => !selected.contains output := by
  unfold withMissing
  induction required generalizing selected with
  | nil => exact (List.append_nil selected).symm
  | cons output rest ih =>
    obtain ⟨new, distinct⟩ := List.nodup_cons.1 distinct
    rw [List.foldl_cons, List.filter_cons]
    cases there : selected.contains output with
    | true => exact ih selected distinct
    | false =>
      rw [if_neg Bool.false_ne_true, if_pos (by decide), ih _ distinct, List.append_assoc]
      -- an output that was just appended is not required again
      refine congrArg (selected ++ output :: ·) (List.filter_congr fun other member => ?_)
      have apart : other ≠ output := fun same => new (same ▸ member)
      simp [apart]

/-- A list that has all that is required stays as it is. -/
theorem withMissing_of_all {selected required : List String} (distinct : required.Nodup)
    (all : required.all selected.contains = true) : withMissing selected required = selected := by
  have none : (required.filter fun output => !selected.contains output) = [] := by
    rw [List.filter_eq_nil_iff]
    intro output member
    simpa using List.all_eq_true.1 all output member
  rw [withMissing_eq selected distinct, none, List.append_nil]

theorem all_contains_withMissing (selected : List String) {required : List String}
    (distinct : required.Nodup) :
    required.all (withMissing selected required).contains = true := by
  rw [withMissing_eq selected distinct, List.all_eq_true]
  intro output member
  by_cases there : output ∈ selected
  · simp [there]
  · simp [there, member]

theorem nodup_forcedContractOutputs : forcedContractOutputs.Nodup := by decide

theorem nodup_forcedFileOutputs : forcedFileOutputs.Nodup := by decide

/-! ## §2. Places of a selection -/

/-- To set the value that a key has changes nothing. -/
theorem Dict.insert_of_get? {d : Dict α} {key : String} {value : α}
    (there : d.get? key = some value) : d.insert key value = d := by
  refine Dict.ext_get? fun other => ?_
  rw [Dict.get?_insert]
  split
  · next same => rw [← same, there]
  · rfl

namespace InputSettings

section Places

variable (contracts : Dict (List String)) (contract : String) {required : List String}

/-- Where outputs were selected they are selected. -/
theorem covers_selectOutputs (distinct : required.Nodup) :
    covers (selectOutputs contracts contract required) contract required = true := by
  rw [covers, selectOutputs, Dict.get?_insert, if_pos rfl]
  exact all_contains_withMissing _ distinct

/-- Every other place stays as it was. -/
theorem covers_selectOutputs_of_ne {other : String} (apart : contract ≠ other)
    (others : List String) :
    covers (selectOutputs contracts contract required) other others
      = covers contracts other others := by
  rw [covers, selectOutputs, Dict.get?_insert, if_neg apart, covers]

/-- Where outputs are selected already nothing changes. -/
theorem selectOutputs_of_covers (distinct : required.Nodup)
    (covered : covers contracts contract required = true) :
    selectOutputs contracts contract required = contracts := by
  rw [covers] at covered
  split at covered
  · next selected there =>
    rw [selectOutputs, there, Option.getD_some, withMissing_of_all distinct covered]
    exact Dict.insert_of_get? there
  · cases covered

/-- The selected outputs stand at their place, and every other place is as it was. -/
theorem get?_selectOutputs (distinct : required.Nodup) (other : String) :
    (selectOutputs contracts contract required).get? other
      = if contract = other then
          some ((contracts.get? contract).getD []
            ++ required.filter fun output => !((contracts.get? contract).getD []).contains output)
        else contracts.get? other := by
  rw [selectOutputs, Dict.get?_insert, withMissing_eq _ distinct]

end Places

/-! ## §3. Forced outputs -/

/-- After outputs were forced they are selected. -/
theorem hasForcedOutputs_forceOutputs (s : InputSettings) :
    s.forceOutputs.hasForcedOutputs = true := by
  rw [forceOutputs, hasForcedOutputs]
  simp only [Dict.get?_insert, if_true, Bool.and_eq_true]
  -- the selection for files is made last and leaves that for contracts
  refine ⟨?_, covers_selectOutputs _ "" nodup_forcedFileOutputs⟩
  rw [covers_selectOutputs_of_ne _ "" (by decide)]
  exact covers_selectOutputs _ "*" nodup_forcedContractOutputs

/-- Where the forced outputs are selected already nothing is forced. -/
theorem forceOutputs_of_hasForcedOutputs {s : InputSettings} (h : s.hasForcedOutputs = true) :
    s.forceOutputs = s := by
  rw [hasForcedOutputs] at h
  split at h
  · next contracts there =>
    rw [Bool.and_eq_true] at h
    have selected : selectOutputs (selectOutputs contracts "*" forcedContractOutputs) ""
        forcedFileOutputs = contracts := by
      rw [selectOutputs_of_covers contracts "*" nodup_forcedContractOutputs h.1,
        selectOutputs_of_covers contracts "" nodup_forcedFileOutputs h.2]
    rw [forceOutputs, there, Option.getD_some, selected, Dict.insert_of_get? there]
  · cases h

/-! ## §4. The selection afterwards -/

/-- What is selected for a contract pattern of a file pattern. -/
def outputsAt (s : InputSettings) (file contract : String) : List String :=
  (ContractMap.find? s.outputSelection file contract).getD []

/-- Some outputs without those that are selected at a place. -/
def lackingAt (s : InputSettings) (file contract : String) (required : List String) :
    List String :=
  required.filter fun output => !(s.outputsAt file contract).contains output

/-- To look into a file pattern that may be missing is to look up both patterns. -/
theorem get?_everyFile (s : InputSettings) (contract : String) :
    ((s.outputSelection.get? "*").getD Dict.empty).get? contract
      = ContractMap.find? s.outputSelection "*" contract := by
  rw [ContractMap.find?]
  cases s.outputSelection.get? "*" <;> rfl

/-- **What is found at a place after outputs were forced.** The selection for contracts and the one
for files are made one after the other, and neither sees what the other one adds. -/
theorem find?_forceOutputs (s : InputSettings) (file contract : String) :
    ContractMap.find? s.forceOutputs.outputSelection file contract
      = if file = "*" ∧ contract = "*" then
          some (s.outputsAt "*" "*" ++ s.lackingAt "*" "*" forcedContractOutputs)
        else if file = "*" ∧ contract = "" then
          some (s.outputsAt "*" "" ++ s.lackingAt "*" "" forcedFileOutputs)
        else ContractMap.find? s.outputSelection file contract := by
  rw [ContractMap.find?, forceOutputs, Dict.get?_insert]
  by_cases everyFile : file = "*"
  · subst everyFile
    have apart : ¬("" : String) = "*" := by decide
    rw [if_pos rfl, Option.bind_some, get?_selectOutputs _ "" nodup_forcedFileOutputs]
    simp only [get?_selectOutputs _ "*" nodup_forcedContractOutputs, get?_everyFile, true_and,
      if_neg (Ne.symm apart)]
    by_cases everyContract : contract = "*"
    · subst everyContract
      rw [if_neg apart]
      rfl
    · rw [if_neg everyContract, if_neg (Ne.symm everyContract)]
      simp only [eq_comm (b := contract)]
      rfl
  · simp only [if_neg (Ne.symm everyFile), everyFile, false_and, if_false]
    rfl

/-- No other file pattern comes, goes or changes. -/
theorem erase_forceOutputs (s : InputSettings) :
    s.forceOutputs.outputSelection.erase "*" = s.outputSelection.erase "*" := by
  refine Dict.ext_get? fun file => ?_
  rw [Dict.get?_erase, Dict.get?_erase, forceOutputs, Dict.get?_insert]
  split <;> rfl

/-- **Forcing outputs adds exactly what is missing**: the outputs for contracts and those for files
that are lacking are appended in their order, everything else stays as it was, and settings change
only if something was lacking. -/
theorem forceOutputs_completes (s : InputSettings) :
    s.forceOutputs.hasForcedOutputs = true
      ∧ (∀ file contract, ContractMap.find? s.forceOutputs.outputSelection file contract
          = if file = "*" ∧ contract = "*" then
              some (s.outputsAt "*" "*" ++ s.lackingAt "*" "*" forcedContractOutputs)
            else if file = "*" ∧ contract = "" then
              some (s.outputsAt "*" "" ++ s.lackingAt "*" "" forcedFileOutputs)
            else ContractMap.find? s.outputSelection file contract)
      ∧ s.forceOutputs.outputSelection.erase "*" = s.outputSelection.erase "*"
      ∧ s.forceOutputs.remappings = s.remappings
      ∧ s.forceOutputs.extra = s.extra
      ∧ s.forceOutputs.forceOutputs = s.forceOutputs
      ∧ (s.forceOutputs = s ↔ s.hasForcedOutputs = true) := by
  have forced : s.forceOutputs.hasForcedOutputs = true := s.hasForcedOutputs_forceOutputs
  refine ⟨forced, s.find?_forceOutputs, s.erase_forceOutputs, rfl, rfl, ?again, ?unchanged, ?idle⟩
  case again => exact forceOutputs_of_hasForcedOutputs forced
  case unchanged =>
    intro same
    rwa [same] at forced
  case idle => exact forceOutputs_of_hasForcedOutputs

end InputSettings

namespace InputDocument

theorem hasForcedOutputs_withForcedOutputs (d : InputDocument) :
    d.withForcedOutputs.settings.hasForcedOutputs = true :=
  d.settings.hasForcedOutputs_forceOutputs

theorem withForcedOutputs_of_hasForcedOutputs {d : InputDocument}
    (h : d.settings.hasForcedOutputs = true) : d.withForcedOutputs = d := by
  rw [withForcedOutputs, InputSettings.forceOutputs_of_hasForcedOutputs h]

end InputDocument

end FuzzBundle
