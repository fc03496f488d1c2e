/-
  FuzzBundle.Proofs.ResolutionHistory — what a resolution map holds after any history of calls.

  A map is only changed by `ResolutionMap.record`. One call changes what is held for one contract
  and for no other (`find?_record`), so that what is held for a contract depends on the calls for it
  alone (`find?_run`). These are a scan for the nearest address (`foldl_settle`): `Settled` says
  what it leaves. A call makes an entry for the file before it decides anything, and yet no file is
  ever left without contracts (`populated_record`).

  Main statement: `run_history`.
-/
import FuzzBundle.Proofs.Nearest
import FuzzBundle.Proofs.ResolutionViews

namespace FuzzBundle.ResolutionMap

/-! ## §1. One call -/

/-- What is held for a contract after one more resolution of it. -/
def settle (held? : Option Resolution) (r : Resolution) : Option Resolution :=
  if replaces r held? then some r else held?

theorem get?_contracts (m : ResolutionMap) (file contract : String) :
    ((m.get? file).getD Dict.empty).get? contract = m.find? file contract := by
  unfold ContractMap.find?
  cases m.get? file <;> rfl

/-- **A call changes what is held for its own contract and for no other.** -/
theorem find?_record (m : ResolutionMap) (file contract : String) (r : Resolution) (f c : String) :
    (m.record file contract r).find? f c
      = if file = f ∧ contract = c then settle (m.find? file contract) r else m.find? f c := by
  -- the entry that is made for the file holds what the file had, so nothing is found anew
  have entry : ContractMap.find? (m.insert file ((m.get? file).getD Dict.empty)) f c
      = m.find? f c := by
    rw [ContractMap.find?_insert, get?_contracts]
    by_cases hf : file = f
    · rw [if_pos hf, hf]
    · rw [if_neg hf]
  unfold record
  simp only [get?_contracts]
  by_cases hr : replaces r (m.find? file contract) = true
  · rw [if_pos hr, ContractMap.find?_insert, entry, Dict.get?_insert, get?_contracts, settle,
      if_pos hr]
    by_cases hf : file = f
    · subst hf
      by_cases hc : contract = c <;> simp [hc]
    · simp [hf]
  · rw [if_neg hr, entry, settle, if_neg hr]
    by_cases h : file = f ∧ contract = c
    · rw [if_pos h, h.1, h.2]
    · rw [if_neg h]

/-- No file is without contracts. -/
def Populated (m : ResolutionMap) : Prop :=
  ∀ file contracts, m.get? file = some contracts → contracts ≠ Dict.empty

/-- **A call leaves no file without contracts**, also where it changes nothing: it then found a
contract in the file, and the file had its entry before. -/
theorem populated_record {m : ResolutionMap} (hm : m.Populated) (file contract : String)
    (r : Resolution) : (m.record file contract r).Populated := by
  intro f contracts hget
  by_cases hf : file = f
  · subst hf
    -- the contract that was called for is there, whether or not the call set it
    have held : ((m.record file contract r).find? file contract).isSome := by
      rw [find?_record, if_pos ⟨rfl, rfl⟩, settle]
      split
      · rfl
      · next hr =>
        cases h : m.find? file contract with
        | none => rw [h] at hr; exact absurd rfl hr
        | some old => rfl
    rintro rfl
    rw [ContractMap.find?, hget] at held
    cases held
  · have before : (m.record file contract r).get? f = m.get? f := by
      unfold record
      simp only []
      split
      · rw [Dict.get?_insert, if_neg hf, Dict.get?_insert, if_neg hf]
      · rw [Dict.get?_insert, if_neg hf]
    exact hm f contracts (before ▸ hget)

/-! ## §2. Histories -/

/-- A call that records a resolution. -/
structure Call where
  file : String
  contract : String
  resolution : Resolution
  deriving DecidableEq, Repr

/-- Whether a call is for a contract of a file. -/
def Call.isFor (file contract : String) (call : Call) : Bool :=
  call.file == file && call.contract == contract

theorem Call.isFor_iff {file contract : String} {call : Call} :
    call.isFor file contract = true ↔ call.file = file ∧ call.contract = contract := by
  simp [Call.isFor]

/-- Makes one call. -/
def perform (m : ResolutionMap) (call : Call) : ResolutionMap :=
  m.record call.file call.contract call.resolution

/-- The map after some calls, empty at first. -/
def run (history : List Call) : ResolutionMap := history.foldl perform Dict.empty

/-- The resolutions that some calls record for a contract of a file. -/
def resolutionsFor (history : List Call) (file contract : String) : List Resolution :=
  (history.filter (Call.isFor file contract)).map (·.resolution)

theorem run_append (history : List Call) (call : Call) :
    run (history ++ [call]) = perform (run history) call := by
  rw [run, List.foldl_append]
  rfl

/-- **What is held for a contract is settled by the calls for it**, one after the other. -/
theorem find?_run (history : List Call) (file contract : String) :
    (run history).find? file contract
      = (resolutionsFor history file contract).foldl settle none := by
  induction history using List.reverseRecOn with
  | nil => rfl
  | append_singleton history call ih =>
    rw [run_append, perform, find?_record, resolutionsFor, List.filter_append, List.map_append,
      List.foldl_append]
    -- the last call either settles once more or is filtered out
    by_cases h : call.isFor file contract = true
    · obtain ⟨hf, hc⟩ := Call.isFor_iff.1 h
      rw [if_pos ⟨hf, hc⟩, hf, hc, ih, List.filter_cons_of_pos h]
      rfl
    · rw [if_neg fun hn => h (Call.isFor_iff.2 hn), ih, List.filter_cons_of_neg h]
      rfl

/-- A call for another contract has no part in what is held. -/
theorem find?_run_append_other (history : List Call) {call : Call} {file contract : String}
    (other : ¬(call.file = file ∧ call.contract = contract)) :
    (run (history ++ [call])).find? file contract = (run history).find? file contract := by
  rw [run_append, perform, find?_record, if_neg other]

theorem populated_run (history : List Call) : (run history).Populated := by
  induction history using List.reverseRecOn with
  | nil =>
    intro file contracts h
    cases h
  | append_singleton history call ih =>
    rw [run_append]
    exact populated_record ih call.file call.contract call.resolution

/-! ## §3. What calls settle -/

/-- The address and the distance of a resolution that has them. -/
def sighting? : Resolution → Option (String × Nat)
  | .resolved address distance => some (address, distance)
  | .unresolved => none

/-- The addresses with their distances among some resolutions. -/
def sightings (resolutions : List Resolution) : List (String × Nat) :=
  resolutions.filterMap sighting?

theorem sightings_append (rs : List Resolution) (r : Resolution) :
    sightings (rs ++ [r]) = sightings rs ++ (sighting? r).toList := by
  rw [sightings, List.filterMap_append]
  cases r <;> rfl

/-- What some resolutions leave for the contract that they are all for: the earliest of the nearest
addresses, and otherwise that there was none. -/
structure Settled (resolutions : List Resolution) (held? : Option Resolution) : Prop where
  absent : held? = none ↔ resolutions = []
  unresolved : held? = some .unresolved
    ↔ resolutions ≠ [] ∧ ∀ r ∈ resolutions, r = .unresolved
  resolved : ∀ address distance, held? = some (.resolved address distance)
    ↔ ∃ i, FirstLeast Prod.snd (sightings resolutions) i (address, distance)

/-- Resolutions are settled by a scan for the nearest address. -/
theorem foldl_settle (resolutions : List Resolution) :
    resolutions.foldl settle none
      = match scan Prod.snd (sightings resolutions) with
        | some (address, distance) => some (.resolved address distance)
        | none => if resolutions = [] then none else some .unresolved := by
  induction resolutions using List.reverseRecOn with
  | nil => rfl
  | append_singleton rs r ih =>
    have more : rs ++ [r] ≠ [] := by simp
    rw [List.foldl_append, List.foldl_cons, List.foldl_nil, ih, sightings_append, if_neg more]
    cases r with
    | unresolved =>
      rw [sighting?, Option.toList_none, List.append_nil]
      cases scan Prod.snd (sightings rs) with
      | some held => rfl
      | none =>
        by_cases hrs : rs = []
        · simp [hrs, settle, replaces]
        · simp [hrs, settle, replaces]
    | resolved address distance =>
      rw [sighting?, Option.toList_some, scan_append]
      cases scan Prod.snd (sightings rs) with
      | some held =>
        -- `replaces` and `keepLighter` make the same comparison
        by_cases hlt : distance < held.2
        · simp [settle, replaces, keepLighter, hlt]
        · simp [settle, replaces, keepLighter, hlt]
      | none =>
        by_cases hrs : rs = []
        · simp [hrs, settle, replaces, keepLighter]
        · simp [hrs, settle, replaces, keepLighter]

/-- There is no address among some resolutions when all are unresolved. -/
theorem sightings_eq_nil_iff (resolutions : List Resolution) :
    sightings resolutions = [] ↔ ∀ r ∈ resolutions, r = .unresolved := by
  rw [sightings, List.filterMap_eq_nil_iff]
  constructor
  · intro h r hr
    have none := h r hr
    cases r with
    | unresolved => rfl
    | resolved address distance => cases none
  · intro h r hr
    rw [h r hr]
    rfl

theorem settled_foldl (resolutions : List Resolution) :
    Settled resolutions (resolutions.foldl settle none) := by
  rw [foldl_settle]
  cases hs : scan Prod.snd (sightings resolutions) with
  | none =>
    have none := (scan_eq_none_iff _ _).1 hs
    have unresolved := (sightings_eq_nil_iff resolutions).1 none
    refine ⟨?_, ?_, ?_⟩
    · by_cases h : resolutions = [] <;> simp [h]
    · by_cases h : resolutions = []
      · simp [h]
      · simp only [h, if_false, ne_eq, not_false_eq_true, true_and, true_iff]
        exact unresolved
    · intro address distance
      have absent : ¬∃ i, FirstLeast Prod.snd (sightings resolutions) i (address, distance) := by
        rw [← scan_eq_some_iff, hs]
        exact nofun
      rw [iff_false_right absent]
      by_cases h : resolutions = [] <;> simp [h]
  | some held =>
    obtain ⟨a, d⟩ := held
    have seen : sightings resolutions ≠ [] := by
      intro h
      rw [(scan_eq_none_iff Prod.snd _).2 h] at hs
      cases hs
    refine ⟨?_, ?_, ?_⟩
    · constructor
      · exact nofun
      · rintro rfl
        exact absurd rfl seen
    · constructor
      · exact nofun
      · intro h
        exact absurd ((sightings_eq_nil_iff resolutions).2 h.2) seen
    · intro address distance
      rw [← scan_eq_some_iff, hs]
      simp

/-! ## §4. Any history -/

/-- The status of a resolution with its distance: `none` where it is not resolved. -/
def distance? : Resolution → Option Nat
  | .resolved _ distance => some distance
  | .unresolved => none

theorem resolutionsFor_eq_nil_iff (history : List Call) (file contract : String) :
    resolutionsFor history file contract = []
      ↔ ∀ call ∈ history, ¬(call.file = file ∧ call.contract = contract) := by
  rw [resolutionsFor, List.map_eq_nil_iff, List.filter_eq_nil_iff]
  simp only [Call.isFor_iff]

/-- Only contracts that were called for have an entry. -/
theorem colonFreeNames_run {history : List Call}
    (names : ∀ call ∈ history, ColonFree call.contract) : (run history).ColonFreeNames := by
  intro file contract h
  rw [find?_run, Option.isSome_iff_ne_none, ne_eq, (settled_foldl _).absent,
    resolutionsFor_eq_nil_iff] at h
  push Not at h
  obtain ⟨call, hcall, _, rfl⟩ := h
  exact names call hcall

/-- What resolutions settle, read without the address. -/
theorem distance?_foldl_settle (rs : List Resolution) :
    (rs.foldl settle none).map distance?
      = if rs = [] then none else some ((scan Prod.snd (sightings rs)).map Prod.snd) := by
  rw [foldl_settle]
  cases hs : scan Prod.snd (sightings rs) with
  | none => by_cases h : rs = [] <;> simp [h, distance?]
  | some held =>
    have named : rs ≠ [] := by
      rintro rfl
      cases hs
    simp [named, distance?]

/-- **The order of resolutions has no part in the status and the distance that they leave.** -/
theorem distance?_foldl_perm {rs rs' : List Resolution} (h : rs.Perm rs') :
    (rs.foldl settle none).map distance? = (rs'.foldl settle none).map distance? := by
  have least : (scan Prod.snd (sightings rs)).map Prod.snd
      = (scan Prod.snd (sightings rs')).map Prod.snd :=
    scan_weight_perm Prod.snd (h.filterMap sighting?)
  have named : rs = [] ↔ rs' = [] := by rw [← List.length_eq_zero_iff, h.length_eq,
    List.length_eq_zero_iff]
  rw [distance?_foldl_settle, distance?_foldl_settle, least]
  simp only [named]

/-- **What every history leaves.** Each contract has what the calls for it settle, a call for
another contract changes nothing for it, and the order of the calls shows in the address alone. The
two readings share out the contracts between them, and no file is without contracts. -/
theorem run_history (history : List Call) :
    (∀ file contract, Settled (resolutionsFor history file contract)
      ((run history).find? file contract))
    ∧ (∀ call file contract, ¬(call.file = file ∧ call.contract = contract) →
      (run (history ++ [call])).find? file contract = (run history).find? file contract)
    ∧ ((∀ call ∈ history, ColonFree call.contract) → (run history).Partitioned)
    ∧ (run history).Populated
    ∧ ∀ other, history.Perm other → ∀ file contract,
      ((run history).find? file contract).map distance?
        = ((run other).find? file contract).map distance? := by
  refine ⟨?_, ?_, ?_, populated_run history, ?_⟩
  · intro file contract
    rw [find?_run]
    exact settled_foldl _
  · intro call file contract other
    exact find?_run_append_other history other
  · intro names
    exact partitioned (colonFreeNames_run names)
  · intro other perm file contract
    have same : (resolutionsFor history file contract).Perm (resolutionsFor other file contract) :=
      (perm.filter _).map _
    rw [find?_run, find?_run, distance?_foldl_perm same]

end FuzzBundle.ResolutionMap
