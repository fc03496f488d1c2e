/-
  FuzzBundle.Proofs.SeededTargets — which contracts get a target when none are given.

  Targets are seeded from the interfaces of successful artifacts: a contract gets its target where
  it is listed for the first time, with the next address that stands in, and later listings change
  nothing (`seedOne_seeded`, `seed_seeded`). An assembled artifact lists every contract of its
  output, with null in place of an interface that the output does not have (`mem_seedKeys_iff`).

  So it is not the contracts with an interface that are seeded, but all contracts
  (`isSome_seed_iff`). The two are the same exactly if every contract has its interface in some
  output (`seeds_interfaces_iff`).

  Main statement: `seeds_interfaces_iff`.
-/
import FuzzBundle.Deployment.Target
import FuzzBundle.Proofs.ContractMaps
import FuzzBundle.Proofs.RestoredArtifacts

namespace FuzzBundle

/-! ## §1. Seeding -/

/-- The targets are those of some contracts, each of them once. In the order in which they were
seeded their addresses were drawn, and none has constructor arguments. -/
structure TargetMap.Seeded (fresh : Nat → String) (order : List (String × String))
    (m : TargetMap) : Prop where
  once : order.Nodup
  found : ∀ file contract t, m.find? file contract = some t
    ↔ ∃ i, order[i]? = some (file, contract) ∧ t = ⟨fresh i, "0x"⟩

namespace TargetMap

variable {fresh : Nat → String} {order : List (String × String)} {m : TargetMap}

theorem seeded_empty (fresh : Nat → String) : Seeded fresh [] Dict.empty where
  once := List.nodup_nil
  found file contract t := by
    constructor
    · intro absurd
      cases absurd
    · rintro ⟨i, absurd, -⟩
      cases absurd

theorem Seeded.isSome_find?_iff (h : Seeded fresh order m) {file contract : String} :
    (m.find? file contract).isSome ↔ (file, contract) ∈ order := by
  rw [Option.isSome_iff_exists, List.mem_iff_getElem?]
  constructor
  · rintro ⟨t, found⟩
    obtain ⟨i, at_i, -⟩ := (h.found file contract t).1 found
    exact ⟨i, at_i⟩
  · rintro ⟨i, at_i⟩
    exact ⟨_, (h.found file contract _).2 ⟨i, at_i, rfl⟩⟩

/-- A new contract comes last, with the next address. -/
theorem Seeded.snoc (h : Seeded fresh order m) {key : String × String} (new : key ∉ order) :
    Seeded fresh (order ++ [key]) (m.put key.1 key.2 ⟨fresh order.length, Target.noArgs⟩) where
  once := by
    rw [List.nodup_append]
    refine ⟨h.once, by simp, ?_⟩
    rintro k there own last rfl
    rw [List.mem_singleton.1 last] at there
    exact new there
  found file contract t := by
    rw [ContractMap.find?_put]
    by_cases own : key.1 = file ∧ key.2 = contract
    · obtain ⟨rfl, rfl⟩ := own
      rw [if_pos ⟨rfl, rfl⟩]
      constructor
      · intro same
        exact ⟨order.length, by simp, (Option.some.inj same).symm⟩
      · rintro ⟨i, at_i, rfl⟩
        -- the contract was not there before, so its place is the last one
        have last : i = order.length := by
          by_contra other
          rcases Nat.lt_or_gt_of_ne other with before | after
          · rw [List.getElem?_append_left before] at at_i
            exact new (List.mem_of_getElem? at_i)
          · rw [List.getElem?_eq_none (by rw [List.length_append]; exact after)] at at_i
            cases at_i
        rw [last]
        rfl
    · rw [if_neg own, h.found]
      refine exists_congr fun i => and_congr_left fun _ => ?_
      by_cases before : i < order.length
      · rw [List.getElem?_append_left before]
      · rw [List.getElem?_append_right (Nat.le_of_not_lt before),
          List.getElem?_eq_none (Nat.le_of_not_lt before)]
        refine iff_of_false nofun fun at_i => own ?_
        have same := List.mem_singleton.1 (List.mem_of_getElem? at_i)
        exact ⟨congrArg Prod.fst same.symm, congrArg Prod.snd same.symm⟩

/-- **A contract is seeded where it is listed for the first time**, and a later listing changes
nothing. -/
theorem seedOne_seeded (h : Seeded fresh order m) (key : String × String) :
    ∃ order', Seeded fresh order' (seedOne fresh (order.length, m) key).2
      ∧ (seedOne fresh (order.length, m) key).1 = order'.length
      ∧ ∀ k, k ∈ order' ↔ k ∈ order ∨ k = key := by
  unfold seedOne
  cases found : m.find? key.1 key.2 with
  | some t =>
    have there : key ∈ order := h.isSome_find?_iff.1 (by rw [found]; rfl)
    refine ⟨order, h, rfl, fun k => ?_⟩
    constructor
    · exact .inl
    · rintro (before | rfl)
      · exact before
      · exact there
  | none =>
    have new : key ∉ order := by
      intro there
      have some := h.isSome_find?_iff.2 there
      rw [found] at some
      cases some
    refine ⟨order ++ [key], h.snoc new, by simp, fun k => ?_⟩
    rw [List.mem_append, List.mem_singleton]

theorem foldl_seedOne_seeded (h : Seeded fresh order m) (keys : List (String × String)) :
    ∃ order', Seeded fresh order' (keys.foldl (seedOne fresh) (order.length, m)).2
      ∧ ∀ k, k ∈ order' ↔ k ∈ order ∨ k ∈ keys := by
  induction keys generalizing order m with
  | nil => exact ⟨order, h, fun k => by simp⟩
  | cons key rest ih =>
    obtain ⟨order₁, seeded, count, members⟩ := seedOne_seeded h key
    obtain ⟨order₂, all, members'⟩ := ih seeded
    have state : seedOne fresh (order.length, m) key
        = (order₁.length, (seedOne fresh (order.length, m) key).2) := by rw [← count]
    refine ⟨order₂, ?_, fun k => ?_⟩
    · rw [List.foldl_cons, state]
      exact all
    · rw [members', members, List.mem_cons, or_assoc]

/-- **Every contract that is listed gets one target.** -/
theorem seed_seeded (fresh : Nat → String) (artifacts : List Artifact) :
    ∃ order, Seeded fresh order (seed fresh artifacts)
      ∧ ∀ key, key ∈ order ↔ key ∈ seedKeys artifacts := by
  obtain ⟨order, seeded, members⟩ := foldl_seedOne_seeded (seeded_empty fresh) (seedKeys artifacts)
  refine ⟨order, seeded, fun key => ?_⟩
  rw [members]
  simp

end TargetMap

/-! ## §2. What assembled artifacts list -/

/-- Compilations, each with what was compiled. -/
abbrev Compilations := List (CompileOutcome × CompilerArgs)

namespace Compilations

variable (compiled : Compilations)

/-- The artifacts of some compilations, each for all contracts of its output. -/
def artifacts : List Artifact := compiled.map fun c => Artifact.assemble c.1 c.2 none

/-- A successful artifact was assembled from an output. -/
def Yields (o : CompilerOutput) : Prop :=
  ∃ c ∈ compiled, c.1 = .success o ∧ (Artifact.assemble c.1 c.2 none).success = true

/-- The output of some successful artifact has a contract. -/
def HasContract (file contract : String) : Prop :=
  ∃ o, compiled.Yields o ∧ (o.contracts.find? file contract).isSome

/-- The output of some successful artifact has a contract with its interface. -/
def HasInterface (file contract : String) : Prop :=
  ∃ o, compiled.Yields o ∧ ∃ c, o.contracts.find? file contract = some c ∧ c.abi?.isSome

end Compilations

/-- The interfaces of an artifact for all contracts are listed by file and contract. -/
theorem TargetMap.mem_seedKeys {artifacts : List Artifact} {file contract : String} :
    (file, contract) ∈ seedKeys artifacts ↔ ∃ a ∈ artifacts, a.success = true
      ∧ ∃ interfaces, a.abi? = some (.nested interfaces)
        ∧ (ContractMap.find? interfaces file contract).isSome := by
  unfold seedKeys
  rw [List.mem_flatMap]
  constructor
  · rintro ⟨a, mem, listed⟩
    obtain ⟨there, success⟩ := List.mem_filter.1 mem
    refine ⟨a, there, success, ?_⟩
    cases abi : a.abi? with
    | none =>
      rw [abi] at listed
      cases listed
    | some field =>
      rw [abi] at listed
      cases field with
      | single value => cases listed
      | nested interfaces =>
        obtain ⟨⟨f, c, value⟩, entry, same⟩ := List.mem_map.1 listed
        cases same
        exact ⟨interfaces, rfl, Option.isSome_iff_exists.2
          ⟨value, ContractMap.mem_flatten_iff.1 entry⟩⟩
  · rintro ⟨a, there, success, interfaces, abi, found⟩
    obtain ⟨value, found⟩ := Option.isSome_iff_exists.1 found
    refine ⟨a, List.mem_filter.2 ⟨there, success⟩, ?_⟩
    rw [abi]
    exact List.mem_map.2 ⟨_, ContractMap.mem_flatten_iff.2 found, rfl⟩

namespace Compilations

variable {compiled : Compilations} {file contract : String}

/-- **A contract is listed whether or not it has an interface.** -/
theorem mem_seedKeys_iff :
    (file, contract) ∈ TargetMap.seedKeys compiled.artifacts
      ↔ compiled.HasContract file contract := by
  rw [TargetMap.mem_seedKeys]
  -- null stands in for an interface that is missing, and what is found is there either way
  have listed (o : CompilerOutput) : (ContractMap.find? (o.contracts.map fun _ contracts =>
        contracts.map fun _ (c : ContractOutput) => c.abi?.getD .null) file contract).isSome
      ↔ (o.contracts.find? file contract).isSome := by
    rw [ContractMap.find?_map, Option.isSome_map]
  constructor
  · rintro ⟨a, mem, success, interfaces, abi, found⟩
    obtain ⟨c, there, rfl⟩ := List.mem_map.1 mem
    rcases Artifact.assemble_cases c.1 c.2 none with
      ⟨error, failed, -⟩ | ⟨o, units, outcome, -, assembled⟩
    · rw [failed] at success
      cases success
    · refine ⟨o, ⟨c, there, outcome, success⟩, ?_⟩
      rw [assembled] at abi
      cases abi
      exact (listed o).1 found
  · rintro ⟨o, ⟨c, there, outcome, success⟩, found⟩
    refine ⟨_, List.mem_map_of_mem there, success, ?_⟩
    rcases Artifact.assemble_cases c.1 c.2 none with
      ⟨error, failed, -⟩ | ⟨o', units, outcome', -, assembled⟩
    · rw [failed] at success
      cases success
    · cases outcome.symm.trans outcome'
      rw [assembled]
      exact ⟨_, rfl, (listed o).2 found⟩

/-- **A contract is seeded if and only if some output has it.** -/
theorem isSome_seed_iff (fresh : Nat → String) :
    ((TargetMap.seed fresh compiled.artifacts).find? file contract).isSome
      ↔ compiled.HasContract file contract := by
  obtain ⟨order, seeded, members⟩ := TargetMap.seed_seeded fresh compiled.artifacts
  rw [seeded.isSome_find?_iff, members, mem_seedKeys_iff]

/-! ## §3. Contracts with interfaces -/

theorem HasInterface.hasContract (h : compiled.HasInterface file contract) :
    compiled.HasContract file contract := by
  obtain ⟨o, yields, c, found, -⟩ := h
  exact ⟨o, yields, by rw [found]; rfl⟩

/-- The contracts with interfaces are seeded and no others, each of them once. -/
structure SeedsInterfaces (fresh : Nat → String) (compiled : Compilations) : Prop where
  target_iff : ∀ file contract,
    ((TargetMap.seed fresh compiled.artifacts).find? file contract).isSome
      ↔ compiled.HasInterface file contract
  seeded : ∃ order, TargetMap.Seeded fresh order (TargetMap.seed fresh compiled.artifacts)

/-- **All contracts are seeded, each of them once; it is only those with interfaces exactly if there
are no others.** -/
theorem seeds_interfaces_iff (fresh : Nat → String) (compiled : Compilations) :
    (∃ order, TargetMap.Seeded fresh order (TargetMap.seed fresh compiled.artifacts)
      ∧ ∀ file contract, (file, contract) ∈ order ↔ compiled.HasContract file contract)
    ∧ (SeedsInterfaces fresh compiled ↔ ∀ file contract, compiled.HasContract file contract →
        compiled.HasInterface file contract) := by
  obtain ⟨order, seeded, members⟩ := TargetMap.seed_seeded fresh compiled.artifacts
  refine ⟨⟨order, seeded, fun file contract => ?_⟩, ?_⟩
  · rw [members, mem_seedKeys_iff]
  · constructor
    · intro only file contract has
      exact (only.target_iff file contract).1 ((isSome_seed_iff fresh).2 has)
    · intro each
      refine ⟨fun file contract => ?_, order, seeded⟩
      rw [isSome_seed_iff]
      exact ⟨each file contract, HasInterface.hasContract⟩

/-- Compilations that each have the same contract, with its interface or without one. -/
def ofPools (interfaces : List (Option Json)) : Compilations :=
  interfaces.map fun abi? => (.success (Artifact.poolOutput abi?), Artifact.poolArgs)

theorem yields_ofPools {interfaces : List (Option Json)} {abi? : Option Json}
    (h : abi? ∈ interfaces) : (ofPools interfaces).Yields (Artifact.poolOutput abi?) :=
  ⟨_, List.mem_map_of_mem h, rfl, rfl⟩

theorem find?_poolOutput (abi? : Option Json) (file contract : String) :
    (Artifact.poolOutput abi?).contracts.find? file contract
      = if "A.sol" = file ∧ "Pool" = contract then some ⟨abi?, none⟩ else none := by
  unfold ContractMap.find? Artifact.poolOutput Dict.get?
  by_cases hf : "A.sol" = file <;> by_cases hc : "Pool" = contract <;>
    simp [Entries.get?_cons, hf, hc]

/-- A contract that one compilation has no interface of and another one has. -/
theorem seeds_interfaces_twoPools :
    SeedsInterfaces (fun _ => "0x00") (ofPools [none, some (.array [])]) := by
  refine (seeds_interfaces_iff _ _).2.2 ?_
  rintro file contract ⟨o, ⟨c, mem, outcome, -⟩, found⟩
  obtain ⟨abi?, -, rfl⟩ := List.mem_map.1 mem
  cases outcome
  rw [find?_poolOutput] at found
  split at found
  · next own =>
    have member : some (.array []) ∈ [none, some (Json.array [])] := by simp
    refine ⟨_, yields_ofPools member, ⟨some (.array []), none⟩, ?_, rfl⟩
    rw [find?_poolOutput, if_pos own]
  · cases found

/-- **Contracts without interfaces are seeded too.** -/
theorem not_only_interfaces :
    ¬ ∀ (fresh : Nat → String) (compiled : Compilations), SeedsInterfaces fresh compiled := by
  intro always
  have only := always (fun _ => "0x00") (ofPools [none])
  have seeded : ((TargetMap.seed (fun _ => "0x00") (ofPools [none]).artifacts).find? "A.sol"
      "Pool").isSome := by
    rw [isSome_seed_iff]
    exact ⟨_, yields_ofPools (List.mem_singleton_self none), rfl⟩
  obtain ⟨o, ⟨c, mem, outcome, -⟩, k, found, interface⟩ := (only.target_iff _ _).1 seeded
  rw [List.mem_singleton.1 mem] at outcome
  cases outcome
  cases found
  cases interface

end Compilations

end FuzzBundle
