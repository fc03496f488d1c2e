/-
  FuzzBundle.Proofs.KeptTargets — what stays of targets when addresses are put in.

  Putting in an address changes a target that is there and adds none, so that files, contracts and
  constructor arguments are those from before (`alike_apply`). A target changes only if an artifact
  has an address for it, and then to one of the addresses that artifacts have (`applied_apply`).

  Artifacts that were just assembled have no addresses. After they are reconciled, the addresses
  they have are therefore those that their code resolved to, and each of these is the address of a
  candidate (`exists_candidate_of_resolves`), which a trace of the same run showed
  (`observed_of_mem_deployAll`).

  Main statement: `reconcile_updated`.
-/
import FuzzBundle.Proofs.AppliedAddresses
import FuzzBundle.Proofs.Assembled
import FuzzBundle.Proofs.Deployments

namespace FuzzBundle

/-! ## §1. Putting in addresses -/

/-- Some artifact has an address for a contract of a file. -/
def HoldsAddress (artifacts : List Artifact) (file contract address : String) : Prop :=
  ∃ a ∈ artifacts, a.addressOf? file contract = some address

theorem holds_of_lastAddress? {artifacts : List Artifact} {file contract address : String}
    (h : lastAddress? artifacts file contract = some address) :
    HoldsAddress artifacts file contract address := by
  obtain ⟨before, last, after, rfl, has, -⟩ := lastAddress?_eq_some_iff.1 h
  exact ⟨last, by simp, has⟩

theorem lastAddress?_eq_none_iff {artifacts : List Artifact} {file contract : String} :
    lastAddress? artifacts file contract = none
      ↔ ∀ address, ¬ HoldsAddress artifacts file contract address := by
  constructor
  · rintro none address ⟨a, mem, has⟩
    rw [lastAddress?, List.findSome?_eq_none_iff] at none
    rw [none a (List.mem_reverse.2 mem)] at has
    cases has
  · intro unheld
    rw [Option.eq_none_iff_forall_ne_some]
    exact fun address last => unheld address (holds_of_lastAddress? last)

namespace TargetMap

/-- The same files with the same contracts and the same constructor arguments, at whatever
addresses. -/
structure Alike (before after : TargetMap) : Prop where
  files : after.keys = before.keys
  contracts : ∀ file, (after.get? file).map Dict.keys = (before.get? file).map Dict.keys
  arguments : ∀ file contract, (after.find? file contract).map (·.constructorArgs)
    = (before.find? file contract).map (·.constructorArgs)

theorem Alike.refl (m : TargetMap) : Alike m m := ⟨rfl, fun _ => rfl, fun _ _ => rfl⟩

theorem Alike.trans {m₁ m₂ m₃ : TargetMap} (h : Alike m₁ m₂) (h' : Alike m₂ m₃) : Alike m₁ m₃ where
  files := h'.files.trans h.files
  contracts file := (h'.contracts file).trans (h.contracts file)
  arguments file contract := (h'.arguments file contract).trans (h.arguments file contract)

/-- One address that is put in adds no target and drops none. -/
theorem alike_setAddress (m : TargetMap) (file contract address : String) :
    Alike m (m.setAddress file contract address) where
  files := Dict.keys_map _ _
  contracts f := by
    rw [setAddress, Dict.modify, Dict.get?_map, Option.map_map]
    congr 1
    funext contracts
    show (if f = file then contracts.modify contract _ else contracts).keys = contracts.keys
    split
    · exact Dict.keys_map _ _
    · rfl
  arguments f c := by
    rw [find?_setAddress]
    split
    · exact Option.map_map ..
    · rfl

/-- **No target is added or dropped, and none gets other constructor arguments.** -/
theorem alike_apply (m : TargetMap) (artifacts : List Artifact) : Alike m (m.apply artifacts) := by
  -- nothing matters of the addresses but that they are set one after the other
  unfold apply
  generalize (artifacts.flatMap fun a => (a.addresses?.getD Dict.empty).flatten) = entries
  induction entries generalizing m with
  | nil => exact Alike.refl m
  | cons entry rest ih => exact (alike_setAddress m ..).trans (ih _)

/-- Two artifacts have the same addresses for the targets, whatever they have for anything else. -/
def SameFor (m : TargetMap) (a b : Artifact) : Prop :=
  ∀ file contract, (m.find? file contract).isSome →
    a.addressOf? file contract = b.addressOf? file contract

/-- What becomes of targets that get the addresses of some artifacts. -/
structure Applied (artifacts : List Artifact) (before after : TargetMap) : Prop where
  alike : Alike before after
  unheld : ∀ file contract, (∀ address, ¬ HoldsAddress artifacts file contract address) →
    after.find? file contract = before.find? file contract
  held : ∀ file contract address t, HoldsAddress artifacts file contract address →
    after.find? file contract = some t → HoldsAddress artifacts file contract t.address
  foreign : ∀ others, List.Forall₂ before.SameFor artifacts others → before.apply others = after

theorem lastAddress?_congr {m : TargetMap} {artifacts others : List Artifact}
    (h : List.Forall₂ m.SameFor artifacts others) {file contract : String}
    (target : (m.find? file contract).isSome) :
    lastAddress? others file contract = lastAddress? artifacts file contract := by
  -- the last artifact decides, so the lists are gone through from their ends
  have reversed := List.forall₂_reverse_iff.2 h
  unfold lastAddress?
  generalize artifacts.reverse = as, others.reverse = bs at reversed
  induction reversed with
  | nil => rfl
  | cons first _ ih =>
    rw [List.findSome?_cons, List.findSome?_cons, ← first file contract target, ih]

/-- Addresses of what is no target make no difference. -/
theorem apply_congr {m : TargetMap} {artifacts others : List Artifact}
    (h : List.Forall₂ m.SameFor artifacts others) : m.apply others = m.apply artifacts := by
  refine ContractMap.ext_find? ?_ fun file contract => ?_
  · rw [(alike_apply m others).files, (alike_apply m artifacts).files]
  · -- what is no target is in neither result, whatever the artifacts have for it
    rw [find?_apply, find?_apply]
    cases target : m.find? file contract with
    | none => rfl
    | some t => rw [lastAddress?_congr h (by rw [target]; rfl)]

/-- **A target changes only to an address that some artifact has for it.** -/
theorem applied_apply (m : TargetMap) (artifacts : List Artifact) :
    Applied artifacts m (m.apply artifacts) where
  alike := alike_apply m artifacts
  unheld file contract unheld := by
    rw [find?_apply, lastAddress?_eq_none_iff.2 unheld]
    exact Option.map_id'
  held file contract address t held found := by
    rw [find?_apply] at found
    obtain ⟨old, -, rfl⟩ := Option.map_eq_some_iff.1 found
    cases last : lastAddress? artifacts file contract with
    | none => exact absurd held (lastAddress?_eq_none_iff.1 last address)
    | some a => exact holds_of_lastAddress? last
  foreign _ same := apply_congr same

end TargetMap

/-- An artifact that was just assembled, or stands in for one that could not be. -/
inductive Artifact.Fresh : Artifact → Prop where
  | assembled (outcome : CompileOutcome) (args : CompilerArgs) (wanted? : Option String) :
    Fresh (assemble outcome args wanted?)
  | failed (error : String) : Fresh (failed error)

theorem Artifact.Fresh.addressOf? {a : Artifact} (h : a.Fresh) (file contract : String) :
    a.addressOf? file contract = none := by
  have none : a.addresses? = none := by
    cases h with
    | failed error => rfl
    | assembled outcome args wanted? =>
      rcases assemble_cases outcome args wanted? with ⟨error, same, -⟩ | ⟨o, units, -, -, same⟩ <;>
      · rw [same]
        rfl
  rw [Artifact.addressOf?, none]
  rfl

/-! ## §2. Candidates in traces -/

namespace Reconciliation

open Bytecode

/-- A trace that a node answered with shows code at an address. -/
def Observed (log : List ChainNode.Event) (address : String) : Prop :=
  ∃ hash entries, .trace hash (.ok (.array entries)) ∈ log
    ∧ ∃ entry ∈ entries, ∃ c, Shows entry c ∧ c.address = address

section Deployment

variable {σ : Type u} {node : ChainNode σ} {artifacts : List Artifact} {targets : TargetMap} {s : σ}

/-- The questions of an attempt are among those of all attempts. -/
theorem exists_events_subset (sender : String) {datas : List String} {attempts : List Attempt}
    (paired : attempts.length = datas.length) {a : Attempt} (h : a ∈ attempts) :
    ∃ data, a.events sender data ⊆ eventsOf sender datas attempts := by
  obtain ⟨i, inside, rfl⟩ := List.mem_iff_getElem.1 h
  have sent : i < datas.length := paired ▸ inside
  -- attempts and what is sent stand at the same places
  refine ⟨datas[i], fun e own => ?_⟩
  refine List.mem_flatten.2 ⟨_, List.mem_iff_getElem.2 ⟨i, ?_, List.getElem_zipWith⟩, own⟩
  rw [List.length_zipWith]
  omega

/-- What an attempt keeps was shown by the trace that it got. -/
theorem observed_of_mem_kept {a : Attempt} {c : Candidate} (h : c ∈ a.kept) (sender data : String) :
    Observed (a.events sender data) c.address := by
  cases a with
  | refused why => cases h
  | untraced hash why => cases h
  | traced hash trace =>
    cases trace with
    | array entries =>
      obtain ⟨entry, mem, shown⟩ := List.mem_filterMap.1 h
      exact ⟨hash, entries, by simp [Attempt.events], entry, mem, c,
        (candidateOf?_eq_some_iff entry c).1 shown, rfl⟩
    | _ => cases h

/-- **Every candidate was shown by a trace of the run.** -/
theorem observed_of_mem_deployAll {c : Candidate}
    (h : c ∈ (deployAll node artifacts targets s).1) :
    Observed (deployAll node.recording artifacts targets ([], s)).2.1 c.address := by
  rcases listed : node.accounts s with ⟨why | (_ | ⟨sender, others⟩), after⟩
  · simp [deployAll, listed] at h
  · simp [deployAll, listed] at h
  · -- a candidate was kept by some attempt, whose trace is among the answers of all
    rw [deployAll_of_account node artifacts targets listed] at h
    rw [deployAll_of_account node.recording artifacts targets
        (ChainNode.recording_accounts listed []), attemptAll_recording]
    obtain ⟨a, mem, kept⟩ := List.mem_flatMap.1 h
    obtain ⟨data, own⟩ := exists_events_subset sender (length_attemptAll node sender _ after) mem
    obtain ⟨hash, entries, traced, shown⟩ := observed_of_mem_kept kept sender data
    exact ⟨hash, entries, List.mem_append_right _ (own traced), shown⟩

end Deployment

/-- **What code resolves to is the address of a candidate.** -/
theorem exists_candidate_of_resolves {targets : TargetMap} {candidates : List Candidate}
    {tolerance : Binary64} {artifact : Artifact} {file contract address : String} {distance : Nat}
    (h : Resolves targets candidates tolerance artifact file contract address distance) :
    ∃ c ∈ candidates, c.address = address := by
  have held := h.2
  rw [find?_matchArtifact, outcome?, if_pos h.isSome_find?] at held
  obtain ⟨code, -, resolved⟩ := Option.map_eq_some_iff.1 held
  obtain ⟨c, ⟨bytes, -, -, i, least⟩, same⟩ := earliestNearest_of_address?
    (congrArg Resolution.address? resolved)
  exact ⟨c, (List.mem_filter.1 (List.mem_of_getElem? least.here)).1, same⟩

/-! ## §3. Artifacts and targets -/

/-- Some successful artifact has an address for a contract of a file. -/
def Located (artifacts : List Artifact) (file contract address : String) : Prop :=
  ∃ a ∈ artifacts, a.success = true ∧ a.addressOf? file contract = some address

/-- What becomes of artifacts and targets, of the candidates that a run kept and of what the node
was asked in it. -/
structure Updated (artifacts : List Artifact) (before : TargetMap) (candidates : List Candidate)
    (tolerance : Binary64) (log : List ChainNode.Event) (after : Reconciled) : Prop where
  alike : before.Alike after.targets
  located_iff : ∀ file contract address, Located after.artifacts file contract address
    ↔ ∃ a ∈ artifacts, ∃ distance,
      Resolves before candidates tolerance a file contract address distance
  unlocated : ∀ file contract, (∀ address, ¬ Located after.artifacts file contract address) →
    after.targets.find? file contract = before.find? file contract
  located : ∀ file contract address t, Located after.artifacts file contract address →
    after.targets.find? file contract = some t →
      Located after.artifacts file contract t.address ∧ Observed log t.address
  untouched : (∀ file contract, before.find? file contract = none) →
    after = ⟨artifacts, before⟩ ∧ log = []

theorem hasNone_eq_false_iff {targets : TargetMap} :
    targets.hasNone = false ↔ ∃ file contract, (targets.find? file contract).isSome := by
  constructor
  · intro some
    rw [TargetMap.hasNone, List.all_eq_false] at some
    obtain ⟨contracts, mem, full⟩ := some
    obtain ⟨⟨file, _⟩, there, rfl⟩ := List.mem_map.1 mem
    obtain ⟨⟨contract, t⟩, own⟩ := List.exists_mem_of_ne_nil _ fun nil =>
      full (List.isEmpty_iff.2 nil)
    refine ⟨file, contract, Option.isSome_iff_exists.2 ⟨t, ?_⟩⟩
    rw [ContractMap.find?, Dict.mem_toList_iff.1 there]
    exact Dict.mem_toList_iff.1 own
  · rintro ⟨file, contract, some⟩
    exact hasNone_of_find?_isSome some

section Matched

variable {artifacts : List Artifact} {before : TargetMap} {candidates : List Candidate}
  {tolerance : Binary64} {log : List ChainNode.Event}

/-- An address that stands on an artifact after it was matched was resolved in this run, because
there was none before. -/
theorem holds_annotated_iff (h : ∀ a ∈ artifacts, a.Fresh) {file contract address : String} :
    HoldsAddress (artifacts.map (annotate before candidates tolerance)) file contract address
      ↔ ∃ a ∈ artifacts, ∃ distance,
        Resolves before candidates tolerance a file contract address distance := by
  constructor
  · rintro ⟨_, mem, has⟩
    obtain ⟨a, there, rfl⟩ := List.mem_map.1 mem
    rcases addressOf?_annotate_eq_some_iff.1 has with resolves | ⟨-, had⟩
    · exact ⟨a, there, _, resolves⟩
    · rw [(h a there).addressOf?] at had
      cases had
  · rintro ⟨a, there, distance, resolves⟩
    exact ⟨_, List.mem_map_of_mem there, addressOf?_annotate_eq_some_iff.2 (.resolved resolves)⟩

theorem success_annotate (a : Artifact) :
    (annotate before candidates tolerance a).success = a.success := by
  unfold annotate
  split <;> rfl

theorem located_annotated_iff (h : ∀ a ∈ artifacts, a.Fresh) {file contract address : String} :
    let after := artifacts.map (annotate before candidates tolerance)
    Located after file contract address ↔ HoldsAddress after file contract address := by
  constructor
  · rintro ⟨a, mem, -, has⟩
    exact ⟨a, mem, has⟩
  · intro holds
    obtain ⟨a, there, distance, resolves⟩ := (holds_annotated_iff h).1 holds
    refine ⟨_, List.mem_map_of_mem there, ?_,
      addressOf?_annotate_eq_some_iff.2 (.resolved resolves)⟩
    rw [success_annotate]
    exact resolves.1

/-- Where there is no target nothing was done. -/
theorem updated_untouched (h : ∀ a ∈ artifacts, a.Fresh) (none : before.hasNone = true) :
    Updated artifacts before candidates tolerance [] ⟨artifacts, before⟩ := by
  have unlocated (file contract address : String) :
      ¬ Located artifacts file contract address := by
    rintro ⟨a, mem, -, has⟩
    rw [(h a mem).addressOf?] at has
    cases has
  refine ⟨.refl before, fun file contract address => ?_, fun _ _ _ => rfl, ?_,
    fun _ => ⟨rfl, rfl⟩⟩
  · refine iff_of_false (unlocated file contract address) ?_
    rintro ⟨a, -, distance, resolves⟩
    rw [hasNone_of_find?_isSome resolves.isSome_find?] at none
    cases none
  · intro file contract address t located
    exact absurd located (unlocated file contract address)

/-- **Targets that are matched get addresses that were observed, or keep those they have.** -/
theorem updated_annotated (h : ∀ a ∈ artifacts, a.Fresh) (some : before.hasNone = false)
    (observed : ∀ c ∈ candidates, Observed log c.address) :
    let after := artifacts.map (annotate before candidates tolerance)
    Updated artifacts before candidates tolerance log ⟨after, before.apply after⟩ := by
  intro after
  have applied := before.applied_apply after
  refine ⟨applied.alike, fun file contract address => ?_, fun file contract unlocated => ?_,
    fun file contract address t located found => ?_, fun none => ?_⟩
  · exact (located_annotated_iff h).trans (holds_annotated_iff h)
  · refine applied.unheld file contract fun address holds => ?_
    exact unlocated address ((located_annotated_iff h).2 holds)
  · -- the address that replaced it comes from an artifact of the result
    have holds := applied.held file contract address t ((located_annotated_iff h).1 located) found
    refine ⟨(located_annotated_iff h).2 holds, ?_⟩
    -- which had none before this run, and so was resolved to a candidate that the run kept
    obtain ⟨a, -, distance, resolves⟩ := (holds_annotated_iff h).1 holds
    obtain ⟨c, mem, same⟩ := exists_candidate_of_resolves resolves
    exact same ▸ observed c mem
  · obtain ⟨file, contract, target⟩ := hasNone_eq_false_iff.1 some
    rw [none file contract] at target
    cases target

end Matched

section Runs

variable {σ : Type u} (node : ChainNode σ) (fresh : Nat → String) {artifacts : List Artifact}
  (targets? : Option TargetMap) (tolerance : Binary64) (s : σ)

theorem reconcile_of_none
    (none : (targets?.getD (TargetMap.seed fresh artifacts)).hasNone = true) :
    reconcile node fresh artifacts targets? tolerance s
      = (⟨artifacts, targets?.getD (TargetMap.seed fresh artifacts)⟩, s) := by
  rw [reconcile]
  exact if_pos none

theorem reconcile_of_some
    (some : (targets?.getD (TargetMap.seed fresh artifacts)).hasNone = false) :
    let before := targets?.getD (TargetMap.seed fresh artifacts)
    let run := deployAll node artifacts before s
    let after := artifacts.map (annotate before run.1 tolerance)
    reconcile node fresh artifacts targets? tolerance s
      = (⟨after, before.apply after⟩, run.2) := by
  rw [reconcile]
  exact if_neg (by rw [some]; exact Bool.false_ne_true)

/-- Reconciliation does not tell a node from one that keeps what it is asked. -/
theorem reconcile_recording :
    let run := reconcile node.recording fresh artifacts targets? tolerance ([], s)
    reconcile node fresh artifacts targets? tolerance s = (run.1, run.2.2) := by
  cases empty : (targets?.getD (TargetMap.seed fresh artifacts)).hasNone with
  | true =>
    rw [reconcile_of_none node fresh targets? tolerance s empty,
      reconcile_of_none node.recording fresh targets? tolerance ([], s) empty]
  | false =>
    rw [reconcile_of_some node fresh targets? tolerance s empty,
      reconcile_of_some node.recording fresh targets? tolerance ([], s) empty,
      deployAll_recording node artifacts _ s]
    rfl

/-- **Only addresses of targets change, and only to what was observed.** Applying artifacts to
targets keeps everything but the addresses that the artifacts have. Of artifacts that were just
assembled these are the addresses that were resolved, so that reconciliation, whatever the node
answers, gives a target the address of a candidate in a trace if its code was resolved, and leaves
it as it is otherwise. -/
theorem reconcile_updated (h : ∀ a ∈ artifacts, a.Fresh) :
    (∀ (m : TargetMap) (others : List Artifact), TargetMap.Applied others m (m.apply others))
    ∧ let before := targets?.getD (TargetMap.seed fresh artifacts)
      let run := reconcile node.recording fresh artifacts targets? tolerance ([], s)
      reconcile node fresh artifacts targets? tolerance s = (run.1, run.2.2)
      ∧ Updated artifacts before (deployAll node artifacts before s).1 tolerance run.2.1 run.1 := by
  refine ⟨TargetMap.applied_apply, ?_⟩
  intro before run
  refine ⟨reconcile_recording node fresh targets? tolerance s, ?_⟩
  cases empty : before.hasNone with
  | true =>
    have recorded : run = (⟨artifacts, before⟩, [], s) :=
      reconcile_of_none node.recording fresh targets? tolerance ([], s) empty
    rw [recorded]
    exact updated_untouched h empty
  | false =>
    have recorded := reconcile_of_some node.recording fresh targets? tolerance ([], s) empty
    have kept := deployAll_recording node artifacts before s
    rw [show run = _ from recorded, kept]
    exact updated_annotated h empty fun c mem => observed_of_mem_deployAll (kept ▸ mem)

end Runs

/-- An output with one contract, of which this code is deployed. -/
def outputOf (deployed : String) : CompilerOutput where
  errors := []
  sources := .empty
  contracts := ContractMap.put Dict.empty "A.sol" "A"
    ⟨none, some ⟨some ⟨some "60aa", none⟩, some ⟨some deployed, none⟩⟩⟩

/-- An artifact with a code that the node of two codes shows, and one that stands in for another. -/
def assembledPair : List Artifact :=
  [.assemble (.success (outputOf "6080aabb")) ⟨"0.8.19", .ofSources .empty .empty⟩ none,
    .failed "artifact assembly did not finish"]

theorem fresh_assembledPair : ∀ a ∈ assembledPair, a.Fresh := by
  intro a mem
  rcases List.mem_pair.1 mem with rfl | rfl
  · exact .assembled ..
  · exact .failed _

/-- A target that was seeded for these artifacts ends where the node showed its code. -/
theorem reconcile_updated_assembledPair :
    let run := reconcile twoCodes.recording (fun _ => "0x00") assembledPair none tenth ([], ())
    run.1.targets.find? "A.sol" "A" = some ⟨"0xa1", Target.noArgs⟩ ∧ Observed run.2.1 "0xa1" := by
  intro run
  have found : run.1.targets.find? "A.sol" "A" = some ⟨"0xa1", Target.noArgs⟩ := by
    decide +kernel
  have updated := (reconcile_updated twoCodes (fun _ => "0x00") none tenth ()
    fresh_assembledPair).2.2
  have located : Located run.1.artifacts "A.sol" "A" "0xa1" :=
    (updated.located_iff ..).2 ⟨_, List.mem_cons_self, 0, rfl, by decide +kernel⟩
  exact ⟨found, (updated.located _ _ _ _ located found).2⟩

end Reconciliation

end FuzzBundle
