/-
  FuzzBundle.Proofs.AppliedAddresses — which address a target ends with.

  Every artifact is matched by itself, and keeps for a contract only the address that its code
  resolves to, without the distance. Putting the addresses into the targets goes through the
  artifacts in their order, so that the last one with an address for a contract decides
  (`find?_apply`, `find?_reconcile`), however near the matches of the others were.

  The closest match of all artifacts therefore wins for a contract exactly when the last artifact
  with an address for it has that of a closest match (`closest_wins_iff`). It does not always
  (`closest_not_always_wins`).

  Main statements: `find?_reconcile`, `closest_wins_iff`.
-/
import FuzzBundle.Proofs.Reconciled

namespace FuzzBundle

/-! ## §1. Addresses of targets -/

/-- The address that an artifact has for a contract of a file. -/
def Artifact.addressOf? (a : Artifact) (file contract : String) : Option String :=
  a.addresses?.bind (·.find? file contract)

/-- The address of the last artifact that has one for a contract of a file. -/
def lastAddress? (artifacts : List Artifact) (file contract : String) : Option String :=
  artifacts.reverse.findSome? (·.addressOf? file contract)

theorem lastAddress?_snoc (artifacts : List Artifact) (last : Artifact) (file contract : String) :
    lastAddress? (artifacts ++ [last]) file contract
      = (last.addressOf? file contract).or (lastAddress? artifacts file contract) := by
  rw [lastAddress?, List.reverse_append, List.reverse_singleton, List.singleton_append,
    List.findSome?_cons]
  cases last.addressOf? file contract <;> rfl

theorem lastAddress?_eq_some_iff {artifacts : List Artifact} {file contract address : String} :
    lastAddress? artifacts file contract = some address
      ↔ ∃ before last after, artifacts = before ++ last :: after
        ∧ last.addressOf? file contract = some address
        ∧ ∀ later ∈ after, later.addressOf? file contract = none := by
  -- what stands before the first one of the reversed list comes after the last one of the list
  rw [lastAddress?, List.findSome?_eq_some_iff]
  constructor
  · rintro ⟨after, last, before, split, has, none⟩
    refine ⟨before.reverse, last, after.reverse, ?_, has, ?_⟩
    · rw [← List.reverse_inj, split]
      simp
    · intro later h
      exact none later (List.mem_reverse.1 h)
  · rintro ⟨before, last, after, rfl, has, none⟩
    exact ⟨after.reverse, last, before.reverse, by simp, has,
      fun later h => none later (List.mem_reverse.1 h)⟩

namespace TargetMap

variable (m : TargetMap) (file contract : String)

/-- A target that is there gets the address, and no other target does. -/
theorem find?_setAddress (f c address : String) :
    (m.setAddress f c address).find? file contract
      = if f = file ∧ c = contract then
          (m.find? file contract).map fun t => { t with address := address }
        else m.find? file contract := by
  simp only [ContractMap.find?, setAddress, Dict.modify, Dict.get?_map]
  cases m.get? file with
  | none => simp
  | some targets =>
    by_cases hf : file = f
    · subst hf
      cases h : targets.get? contract <;>
        by_cases hc : contract = c <;> simp [Dict.get?_map, h, hc, eq_comm]
    · simp [hf, Ne.symm hf]

/-- Setting the addresses of some entries sets those of a target's own entries. -/
theorem find?_foldl_setAddress (entries : List (String × String × String)) :
    (entries.foldl (fun m entry => m.setAddress entry.1 entry.2.1 entry.2.2) m).find? file contract
      = (entries.filter (ContractMap.isAt file contract)).foldl
          (fun t? entry => t?.map fun t => { t with address := entry.2.2 })
          (m.find? file contract) := by
  induction entries generalizing m with
  | nil => rfl
  | cons entry rest ih =>
    rw [List.foldl_cons, ih, find?_setAddress]
    by_cases h : ContractMap.isAt file contract entry = true
    · rw [if_pos (ContractMap.isAt_iff.1 h), List.filter_cons_of_pos h, List.foldl_cons]
    · rw [if_neg (fun own => h (ContractMap.isAt_iff.2 own)), List.filter_cons_of_neg h]

/-- What one artifact's addresses make of a target. -/
theorem find?_foldl_flatten (addresses : ContractMap String) :
    ContractMap.find? (addresses.flatten.foldl
        (fun m entry => setAddress m entry.1 entry.2.1 entry.2.2) m) file contract
      = (m.find? file contract).map fun t =>
          { t with address := (addresses.find? file contract).getD t.address } := by
  rw [find?_foldl_setAddress, ContractMap.filter_isAt_flatten]
  cases addresses.find? file contract with
  | none => exact Option.map_id'.symm
  | some address => rfl

theorem apply_snoc (artifacts : List Artifact) (last : Artifact) :
    m.apply (artifacts ++ [last])
      = (last.addresses?.getD Dict.empty).flatten.foldl
          (fun m entry => setAddress m entry.1 entry.2.1 entry.2.2) (m.apply artifacts) := by
  rw [apply, List.flatMap_append, List.foldl_append, List.flatMap_singleton]
  rfl

/-- **A target gets the address of the last artifact that has one for it**, and keeps its own if
there is none. -/
theorem find?_apply (artifacts : List Artifact) :
    (m.apply artifacts).find? file contract
      = (m.find? file contract).map fun t =>
          { t with address := (lastAddress? artifacts file contract).getD t.address } := by
  -- from the end, because the last artifact decides, and the others only if it has no address
  induction artifacts using List.reverseRecOn with
  | nil => exact Option.map_id'.symm
  | append_singleton artifacts last ih =>
    rw [apply_snoc, find?_foldl_flatten, ih, Option.map_map, lastAddress?_snoc]
    congr 1
    funext t
    unfold Artifact.addressOf?
    cases last.addresses? with
    | none => rfl
    | some addresses => cases h : addresses.find? file contract <;> simp [h]

end TargetMap

/-! ## §2. Addresses after reconciliation -/

namespace Reconciliation

open Bytecode

section Offers

variable (targets : TargetMap) (candidates : List Candidate) (tolerance : Binary64)

/-- A successful artifact resolves a contract of a file to an address at some distance. -/
def Resolves (artifact : Artifact) (file contract address : String) (distance : Nat) : Prop :=
  artifact.success = true
    ∧ (matchArtifact artifact targets candidates tolerance).find? file contract
      = some (.resolved address distance)

/-- An artifact has an address for a contract of a file once it is matched: a successful one that
which it resolves to, and any other the one it came with. -/
inductive Offers (artifact : Artifact) (file contract address : String) : Prop where
  | resolved {distance : Nat}
    (resolves : Resolves targets candidates tolerance artifact file contract address distance)
  | kept (failed : artifact.success = false)
    (had : artifact.addressOf? file contract = some address)

/-- An address at which some artifact resolves a contract of a file, with no artifact resolving it
nearer. -/
def Closest (artifacts : List Artifact) (file contract address : String) : Prop :=
  ∃ distance,
    (∃ artifact ∈ artifacts,
      Resolves targets candidates tolerance artifact file contract address distance)
    ∧ ∀ artifact ∈ artifacts, ∀ other further,
      Resolves targets candidates tolerance artifact file contract other further
        → distance ≤ further

/-- The address of the last artifact that has one for a contract of a file. -/
def LastOffer (artifacts : List Artifact) (file contract address : String) : Prop :=
  ∃ before last after, artifacts = before ++ last :: after
    ∧ Offers targets candidates tolerance last file contract address
    ∧ ∀ later ∈ after, ∀ other, ¬ Offers targets candidates tolerance later file contract other

variable {targets candidates tolerance} {artifacts : List Artifact} {artifact : Artifact}
  {file contract address : String}

/-- **What is noted on an artifact is what it offers.** -/
theorem addressOf?_annotate_eq_some_iff :
    (annotate targets candidates tolerance artifact).addressOf? file contract = some address
      ↔ Offers targets candidates tolerance artifact file contract address := by
  cases success : artifact.success with
  | false =>
    rw [annotate, if_neg (by simp [success])]
    constructor
    · exact .kept success
    · rintro (⟨yes, _⟩ | ⟨_, had⟩)
      · cases success.symm.trans yes
      · exact had
  | true =>
    have noted : (annotate targets candidates tolerance artifact).addressOf? file contract
        = ((matchArtifact artifact targets candidates tolerance).find? file contract).bind
          Resolution.address? := by
      rw [annotate, if_pos success, ← ResolutionMap.find?_addresses]
      rfl
    rw [noted, Option.bind_eq_some_iff]
    constructor
    · rintro ⟨r, held, its⟩
      cases r with
      | unresolved => cases its
      | resolved a distance =>
        cases its
        exact .resolved ⟨success, held⟩
    · rintro (⟨_, held⟩ | ⟨no, _⟩)
      · exact ⟨_, held, rfl⟩
      · cases success.symm.trans no

theorem addressOf?_annotate_eq_none_iff :
    (annotate targets candidates tolerance artifact).addressOf? file contract = none
      ↔ ∀ other, ¬ Offers targets candidates tolerance artifact file contract other := by
  rw [Option.eq_none_iff_forall_ne_some]
  exact forall_congr' fun other => not_congr addressOf?_annotate_eq_some_iff

theorem lastAddress?_annotated_eq_some_iff :
    lastAddress? (artifacts.map (annotate targets candidates tolerance)) file contract
        = some address
      ↔ LastOffer targets candidates tolerance artifacts file contract address := by
  rw [lastAddress?_eq_some_iff]
  constructor
  · rintro ⟨before, last, after, split, has, none⟩
    obtain ⟨before, rest, rfl, rfl, cut⟩ := List.map_eq_append_iff.1 split
    obtain ⟨last, after, rfl, rfl, rfl⟩ := List.map_eq_cons_iff.1 cut
    refine ⟨before, last, after, rfl, addressOf?_annotate_eq_some_iff.1 has, fun later h => ?_⟩
    exact addressOf?_annotate_eq_none_iff.1 (none _ (List.mem_map_of_mem h))
  · rintro ⟨before, last, after, rfl, offers, none⟩
    refine ⟨_, _, _, List.map_append, addressOf?_annotate_eq_some_iff.2 offers, ?_⟩
    intro later h
    obtain ⟨later, mem, rfl⟩ := List.mem_map.1 h
    exact addressOf?_annotate_eq_none_iff.2 (none later mem)

/-- Where some artifact offers an address, there is a last one that does. -/
theorem exists_lastOffer (h : artifact ∈ artifacts)
    (offers : Offers targets candidates tolerance artifact file contract address) :
    ∃ last, LastOffer targets candidates tolerance artifacts file contract last := by
  cases found : lastAddress? (artifacts.map (annotate targets candidates tolerance)) file
      contract with
  | some last => exact ⟨last, lastAddress?_annotated_eq_some_iff.1 found⟩
  | none =>
    rw [lastAddress?, List.findSome?_eq_none_iff] at found
    have none := found _ (List.mem_reverse.2 (List.mem_map_of_mem h))
    exact absurd offers (addressOf?_annotate_eq_none_iff.1 none address)

/-- What is resolved is a target. -/
theorem Resolves.isSome_find? {distance : Nat}
    (h : Resolves targets candidates tolerance artifact file contract address distance) :
    (targets.find? file contract).isSome := by
  have held := h.2
  rw [find?_matchArtifact, outcome?] at held
  by_contra none
  rw [if_neg none] at held
  cases held

end Offers

/-- Targets of which one is found are some. -/
theorem hasNone_of_find?_isSome {targets : TargetMap} {file contract : String}
    (h : (targets.find? file contract).isSome) : targets.hasNone = false := by
  obtain ⟨t, ht⟩ := Option.isSome_iff_exists.1 h
  obtain ⟨contracts, hf, hc⟩ := Option.bind_eq_some_iff.1 ht
  rw [TargetMap.hasNone, List.all_eq_false]
  refine ⟨contracts, List.mem_map.2 ⟨_, Dict.mem_toList_iff.2 hf, rfl⟩, ?_⟩
  intro empty
  have none : contracts.toList = [] := List.isEmpty_iff.1 empty
  have mem := Dict.mem_toList_iff.2 hc
  rw [none] at mem
  cases mem

variable {σ : Type u} (node : ChainNode σ) (fresh : Nat → String) (artifacts : List Artifact)
  {targets : TargetMap} (tolerance : Binary64) (s : σ) {file contract : String}

/-- **A target ends with the address of the last artifact that has one for it**, and keeps its own
if there is none. -/
theorem find?_reconcile {t : Target} (target : targets.find? file contract = some t) :
    ((reconcile node fresh artifacts (some targets) tolerance s).1.targets).find? file contract
      = some { t with address := (lastAddress? (artifacts.map (annotate targets
          (deployAll node artifacts targets s).1 tolerance)) file contract).getD t.address } := by
  have some : targets.hasNone = false := hasNone_of_find?_isSome (by rw [target]; rfl)
  rw [reconcile]
  simp only [Option.getD_some, some, Bool.false_eq_true, if_false]
  rw [reconcileArtifacts, TargetMap.find?_apply, target]
  rfl

/-- Some artifact resolves a contract of a file. -/
def Resolved (targets : TargetMap) (candidates : List Candidate) (tolerance : Binary64)
    (artifacts : List Artifact) (file contract : String) : Prop :=
  ∃ artifact ∈ artifacts, ∃ address distance,
    Resolves targets candidates tolerance artifact file contract address distance

/-- The target of a contract ends with the address of a closest match of all artifacts. -/
def ClosestWins (targets : TargetMap) (file contract : String) : Prop :=
  ∃ t, ((reconcile node fresh artifacts (some targets) tolerance s).1.targets).find? file contract
      = some t
    ∧ Closest targets (deployAll node artifacts targets s).1 tolerance artifacts file contract
      t.address

/-- **The closest match of all artifacts wins for a contract if and only if the last artifact with
an address for it has that of a closest match.** -/
theorem closest_wins_iff (resolved : Resolved targets (deployAll node artifacts targets s).1
      tolerance artifacts file contract) :
    ClosestWins node fresh artifacts tolerance s targets file contract ↔ ∃ address,
      LastOffer targets (deployAll node artifacts targets s).1 tolerance artifacts file contract
        address
      ∧ Closest targets (deployAll node artifacts targets s).1 tolerance artifacts file contract
        address := by
  obtain ⟨artifact, mem, address, distance, resolves⟩ := resolved
  obtain ⟨t, target⟩ := Option.isSome_iff_exists.1 resolves.isSome_find?
  -- there is a last artifact with an address, and what it offers is what is stored
  obtain ⟨last, offered⟩ := exists_lastOffer mem (.resolved resolves)
  have stored := find?_reconcile node fresh artifacts tolerance s target
  rw [lastAddress?_annotated_eq_some_iff.2 offered, Option.getD_some] at stored
  constructor
  · rintro ⟨t', found, closest⟩
    cases stored.symm.trans found
    exact ⟨last, offered, closest⟩
  · rintro ⟨address, offered', closest⟩
    have same : some address = some last :=
      (lastAddress?_annotated_eq_some_iff.2 offered').symm.trans
        (lastAddress?_annotated_eq_some_iff.2 offered)
    cases same
    exact ⟨_, stored, closest⟩

/-! ## §3. Two artifacts of one contract -/

/-- A successful artifact of one contract with this deployed code. -/
def artifactOf (deployed : String) : Artifact where
  success := true
  creationCode? := some (.nested (ContractMap.put Dict.empty "A.sol" "A" "60aa"))
  deployedCode? := some (.nested (ContractMap.put Dict.empty "A.sol" "A" deployed))

/-- That contract as the only target. -/
def oneTarget : TargetMap := ContractMap.put Dict.empty "A.sol" "A" ⟨"0x00", Target.noArgs⟩

/-- An entry of a trace that shows code at an address. -/
def shown (address code : String) : Json :=
  .ofFields [("result", .ofFields [("address", .string address), ("code", .string code)])]

/-- A node on which every deployment shows two codes. -/
def twoCodes : ChainNode Unit where
  accounts s := (.ok ["0xsender"], s)
  send _ _ s := (.ok "0xtx", s)
  trace _ s := (.ok (.array [shown "0xa1" "0x6080aabb", shown "0xa2" "0x6080aaff"]), s)

/-- The codes that it shows. -/
def twoCandidates : List Candidate :=
  [⟨"0xa1", [0x60, 0x80, 0xaa, 0xbb]⟩, ⟨"0xa2", [0x60, 0x80, 0xaa, 0xff]⟩]

/-- An artifact with the first of the two codes. -/
def sameCode : Artifact := artifactOf "6080aabb"

/-- An artifact with neither code, and nearer to the second. -/
def nearCode : Artifact := artifactOf "6080aafe"

/-- A tenth, the tolerance that is configured by default. -/
def tenth : Binary64 := .ofDecimal false 1 (-1)

theorem resolves_sameCode : Resolves oneTarget twoCandidates tenth sameCode "A.sol" "A" "0xa1" 0 :=
  ⟨rfl, by decide⟩

theorem resolves_nearCode : Resolves oneTarget twoCandidates tenth nearCode "A.sol" "A" "0xa2" 1 :=
  ⟨rfl, by decide⟩

/-- An artifact resolves a contract at one place. -/
theorem Resolves.unique {targets : TargetMap} {candidates : List Candidate} {tolerance : Binary64}
    {artifact : Artifact} {file contract address other : String} {distance further : Nat}
    (h : Resolves targets candidates tolerance artifact file contract address distance)
    (h' : Resolves targets candidates tolerance artifact file contract other further) :
    address = other ∧ distance = further := by
  cases h.2.symm.trans h'.2
  exact ⟨rfl, rfl⟩

/-- **The closest match does not always win.** The second artifact has the address of the code that
it is one bit away from, and this replaces the address of the very code of the first. -/
theorem closest_not_always_wins :
    ¬ ∀ (node : ChainNode Unit) (fresh : Nat → String) (artifacts : List Artifact)
      (targets : TargetMap) (tolerance : Binary64) (s : Unit) (file contract : String),
      Resolved targets (deployAll node artifacts targets s).1 tolerance artifacts file contract
        → ClosestWins node fresh artifacts tolerance s targets file contract := by
  intro always
  have seen : (deployAll twoCodes [sameCode, nearCode] oneTarget ()).1 = twoCandidates := by decide
  obtain ⟨t, found, distance, ⟨artifact, mem, resolves⟩, least⟩ :=
    always twoCodes (fun _ => "") [sameCode, nearCode] oneTarget tenth () "A.sol" "A"
      ⟨sameCode, by simp, _, _, seen ▸ resolves_sameCode⟩
  have stored : ((reconcile twoCodes (fun _ => "") [sameCode, nearCode] (some oneTarget) tenth
      ()).1.targets).find? "A.sol" "A" = some ⟨"0xa2", Target.noArgs⟩ := by decide
  cases stored.symm.trans found
  rw [seen] at resolves least
  -- only the second artifact resolves to this address, one bit further than the first
  rcases List.mem_pair.1 mem with rfl | rfl
  · have other := (resolves_sameCode.unique resolves).1
    revert other
    decide
  · obtain ⟨-, rfl⟩ := resolves_nearCode.unique resolves
    have closer := least sameCode (by simp) _ _ resolves_sameCode
    omega

theorem closest_wins_iff_nearCode_first :
    ClosestWins twoCodes (fun _ => "") [nearCode, sameCode] tenth () oneTarget "A.sol" "A" := by
  have seen : (deployAll twoCodes [nearCode, sameCode] oneTarget ()).1 = twoCandidates := by decide
  refine (closest_wins_iff twoCodes (fun _ => "") [nearCode, sameCode] tenth ()
    ⟨sameCode, by simp, _, _, seen ▸ resolves_sameCode⟩).2 ?_
  rw [seen]
  refine ⟨"0xa1", ⟨[nearCode], sameCode, [], rfl, .resolved resolves_sameCode, by simp⟩,
    0, ⟨sameCode, by simp, resolves_sameCode⟩, fun _ _ _ _ _ => Nat.zero_le _⟩

end Reconciliation

end FuzzBundle
