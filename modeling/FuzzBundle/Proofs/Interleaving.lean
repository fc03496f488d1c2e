/-
  FuzzBundle.Proofs.Interleaving — units that are compiled at the same time do not disturb each
  other.

  A unit reads and writes its own scratch file only, so its steps can be told without the directory
  (`ownStep`, `unitStep_spec`). What holds in a run of a batch is that every unit stands where its
  own steps have brought it, whatever steps the others have taken in between, and that files at
  other paths are as they were (`Tracks`). A step of any unit keeps this, because the paths are
  apart (`tracks_step`), and so does every schedule (`tracks_run`).

  Five steps bring a unit to the artifact that it has when it is compiled alone
  (`ownSteps_of_five_le`).

  Main statement: `run_undisturbed`.
-/
import Mathlib.Data.List.Induction
import FuzzBundle.Bundle.Batch
import FuzzBundle.Proofs.TaskRuns

namespace FuzzBundle

/-! ## §1. A unit and its scratch file -/

namespace UnitStage

variable (i : Invoker) (path : String) (u : BuildUnit) (target? : Option String)

/-- The next step of a unit that sees nothing but its scratch file. -/
def ownStep (own : Option Content) : UnitStage → Option Content × UnitStage
  | .compiling (.finished outcome) =>
    (own, .assembled (Artifact.assemble outcome (forcedUnit u) target?))
  | .compiling stage =>
    let (own, stage) := (unitTask i path u).ownStep own stage
    (own, .compiling stage)
  | .assembled artifact => (own, .assembled artifact)

/-- **A unit's step in a directory is its step on the scratch file, and all other files stay.** -/
theorem unitStep_spec (files : ScratchFiles) (stage : UnitStage) :
    (unitStep i path u target? files stage).2
        = (ownStep i path u target? (files.get? path) stage).2
    ∧ ∀ p, (unitStep i path u target? files stage).1.get? p
      = if path = p then (ownStep i path u target? (files.get? path) stage).1
        else files.get? p := by
  have still := ScratchFiles.get?_untouched files path
  cases stage with
  | assembled artifact => exact ⟨rfl, still⟩
  | compiling stage =>
    have task := (unitTask i path u).step_spec files stage
    cases stage with
    | finished outcome => exact ⟨rfl, still⟩
    | _ => exact ⟨congrArg compiling task.1, task.2⟩

/-- Some steps of a unit that sees nothing but its scratch file. -/
def ownSteps (own : Option Content) : Nat → Option Content × UnitStage
  | 0 => (own, .compiling .ready)
  | k + 1 =>
    let s := ownSteps own k
    ownStep i path u target? s.1 s.2

/-- Two steps make the artifact of a unit whose request is not written. -/
theorem ownSteps_two_of_failure (own : Option Content) {reason : String}
    (failed : (unitTask i path u).writing.failure? = some reason) :
    ownSteps i path u target? own 2
      = ((unitTask i path u).leftOver own, .assembled (compileUnit i path u target?)) := by
  have one : ownSteps i path u target? own 1
      = ((unitTask i path u).leftOver own,
        .compiling (.finished ((unitTask i path u).unwritten reason))) := by
    rw [(unitTask i path u).leftOver_of_failure failed]
    simp only [ownSteps, ownStep, Task.ownStep, failed]
  rw [ownSteps, one, compileUnit, (unitTask i path u).outcome_of_failure failed]
  rfl

/-- Five steps make the artifact of any other unit. -/
theorem ownSteps_five_of_done (own : Option Content)
    (written : (unitTask i path u).writing = .done) :
    ownSteps i path u target? own 5
      = ((unitTask i path u).leftOver own, .assembled (compileUnit i path u target?)) := by
  let t := unitTask i path u
  have one : ownSteps i path u target? own 1 = (some t.request, .compiling .prepared) := by
    simp only [ownSteps, ownStep, Task.ownStep, written]
    rfl
  have two : ownSteps i path u target? own 2
      = (t.leftAfter (some t.request),
        .compiling (.worked (t.failureAfter? (some t.request)))) := by
    rw [ownSteps, one]
    rfl
  have three : ownSteps i path u target? own 3
      = (t.leftAfter (some t.request), .compiling (.judged t.verdict)) := by
    rw [ownSteps, two]
    exact congrArg (fun s : Option Content × Task.Stage => (s.1, compiling s.2)) t.ownStep_worked
  have four : ownSteps i path u target? own 4
      = (t.leftOver own, .compiling (.finished t.verdict)) := by
    rw [ownSteps, three, t.leftOver_of_done written]
    rfl
  rw [ownSteps, four, compileUnit, t.outcome_of_done written]
  rfl

/-- **After five steps a unit has the artifact that it has when it is compiled alone.** -/
theorem ownSteps_five (own : Option Content) :
    ownSteps i path u target? own 5
      = ((unitTask i path u).leftOver own, .assembled (compileUnit i path u target?)) := by
  cases failed : (unitTask i path u).writing.failure? with
  | some reason =>
    -- the artifact is there after two steps, and stays
    rw [ownSteps, ownSteps, ownSteps, ownSteps_two_of_failure i path u target? own failed]
    rfl
  | none =>
    exact ownSteps_five_of_done i path u target? own (FileWrite.failure?_eq_none_iff.1 failed)

/-- An artifact that is there stays. -/
theorem ownSteps_of_five_le (own : Option Content) {k : Nat} (h : 5 ≤ k) :
    ownSteps i path u target? own k
      = ((unitTask i path u).leftOver own, .assembled (compileUnit i path u target?)) := by
  obtain ⟨more, rfl⟩ := Nat.exists_eq_add_of_le h
  clear h
  induction more with
  | zero => exact ownSteps_five i path u target? own
  | succ more ih =>
    rw [← Nat.add_assoc, ownSteps, ih]
    rfl

end UnitStage

/-! ## §2. A batch -/

namespace Batch

/-- No two units have the same scratch file. -/
def Apart (b : Batch) : Prop :=
  ∀ m < b.units.length, ∀ n < b.units.length, b.scratch m = b.scratch n → m = n

instance (b : Batch) : Decidable b.Apart :=
  inferInstanceAs (Decidable (∀ m < b.units.length, ∀ n < b.units.length,
    b.scratch m = b.scratch n → m = n))

variable {b : Batch}

/-- Where a unit with this number stands after some steps of its own. -/
def alone (b : Batch) (before : ScratchFiles) (n : Nat) (u : BuildUnit) (k : Nat) :
    Option Content × UnitStage :=
  UnitStage.ownSteps b.invoker (b.scratch n) u b.target? (before.get? (b.scratch n)) k

/-- Every unit stands where its own steps have brought it, given how many each has taken, and files
at other paths are as they were. -/
structure Tracks (b : Batch) (before : ScratchFiles) (taken : Nat → Nat) (s : State) : Prop where
  length : s.stages.length = b.units.length
  stages : ∀ n u, b.units[n]? = some u → s.stages[n]? = some (b.alone before n u (taken n)).2
  own : ∀ n u, b.units[n]? = some u →
    s.files.get? (b.scratch n) = (b.alone before n u (taken n)).1
  others : ∀ p, (∀ n < b.units.length, b.scratch n ≠ p) → s.files.get? p = before.get? p

theorem tracks_start (b : Batch) (before : ScratchFiles) :
    b.Tracks before (fun _ => 0) (b.start before) where
  length := List.length_map _
  stages n u h := by rw [start, List.getElem?_map, h]; rfl
  own _ _ _ := rfl
  others _ _ := rfl

/-- A step with the number of no unit is none. -/
theorem step_of_no_unit {s : State} {k : Nat} (h : b.units[k]? = none) : b.step s k = s := by
  unfold step
  rw [h]

/-- Any other step is that of the unit. -/
theorem step_of_unit {s : State} {k : Nat} {u : BuildUnit} {stage : UnitStage}
    (hu : b.units[k]? = some u) (hs : s.stages[k]? = some stage) :
    let after := unitStep b.invoker (b.scratch k) u b.target? s.files stage
    b.step s k = ⟨after.1, s.stages.set k after.2⟩ := by
  unfold step
  rw [hu, hs]

/-- A step with the number of no unit changes nothing about the others. -/
theorem tracks_step_of_no_unit {before : ScratchFiles} {taken : Nat → Nat} {s : State}
    (h : b.Tracks before taken s) {k : Nat} (none : b.units[k]? = none) :
    b.Tracks before (fun n => if n = k then taken n + 1 else taken n) (b.step s k) := by
  have other : ∀ n u, b.units[n]? = some u → n ≠ k := by
    rintro n u hn rfl
    rw [none] at hn
    cases hn
  rw [step_of_no_unit none]
  refine ⟨h.length, ?_, ?_, h.others⟩
  · intro n u hn
    rw [if_neg (other n u hn)]
    exact h.stages n u hn
  · intro n u hn
    rw [if_neg (other n u hn)]
    exact h.own n u hn

/-- **A step of any unit leaves every unit where its own steps have brought it.** -/
theorem tracks_step (apart : b.Apart) {before : ScratchFiles} {taken : Nat → Nat} {s : State}
    (h : b.Tracks before taken s) (k : Nat) :
    b.Tracks before (fun n => if n = k then taken n + 1 else taken n) (b.step s k) := by
  cases hu : b.units[k]? with
  | none => exact tracks_step_of_no_unit h hu
  | some v =>
    have hk : k < b.units.length := (List.getElem?_eq_some_iff.1 hu).1
    obtain ⟨moved, touched⟩ := UnitStage.unitStep_spec b.invoker (b.scratch k) v b.target?
      s.files (b.alone before k v (taken k)).2
    rw [h.own k v hu] at moved touched
    rw [step_of_unit hu (h.stages k v hu), moved]
    -- a unit is the one that took the step, or neither its stage nor its file has changed
    refine ⟨?_, ?_, ?_, ?_⟩
    · rw [List.length_set, h.length]
    · intro n u hn
      by_cases same : n = k
      · subst same
        cases hu.symm.trans hn
        rw [if_pos rfl, List.getElem?_set_self (h.length ▸ hk)]
        rfl
      · rw [if_neg same, List.getElem?_set_ne (Ne.symm same)]
        exact h.stages n u hn
    · intro n u hn
      have hn' : n < b.units.length := (List.getElem?_eq_some_iff.1 hn).1
      rw [touched]
      by_cases same : n = k
      · subst same
        cases hu.symm.trans hn
        rw [if_pos rfl, if_pos rfl]
        rfl
      · -- the paths are apart, so that the step was taken in another file
        rw [if_neg fun path => same (apart k hk n hn' path).symm, if_neg same]
        exact h.own n u hn
    · intro p other
      rw [touched, if_neg (other k hk)]
      exact h.others p other

/-- **After any schedule every unit stands where its own steps have brought it.** -/
theorem tracks_run (apart : b.Apart) (before : ScratchFiles) (schedule : List Nat) :
    b.Tracks before (schedule.count ·) (b.run schedule (b.start before)) := by
  -- from the end of the schedule, because it is the last step that leads to the state
  induction schedule using List.reverseRecOn with
  | nil => exact tracks_start b before
  | append_singleton schedule k ih =>
    have more : (fun n => (schedule ++ [k]).count n)
        = fun n => if n = k then schedule.count n + 1 else schedule.count n := by
      funext n
      rw [List.count_append, List.count_singleton]
      by_cases h : n = k
      · simp [h]
      · simp [h, Ne.symm h]
    rw [more, run, List.foldl_append]
    exact tracks_step apart ih k

end Batch

/-! ## §3. What a batch returns -/

namespace Task

/-- A task that removes its scratch file leaves the path of it as it was: nothing was there, or no
request was written over what was there, or just as much was there as was written. -/
def Spares (t : Task) (before : Option Content) : Prop :=
  match t.writing with
  | .done => before = none
  | .refused _ => True
  | .brokenOff _ written => before = some (t.request.upTo written)

theorem leftOver_eq_iff {t : Task} (removed : t.invoker.keepScratch = false)
    (before : Option Content) : t.leftOver before = before ↔ t.Spares before := by
  unfold leftOver Spares
  cases t.writing with
  | done => simp [removed, eq_comm]
  | refused _ => simp
  | brokenOff _ written => exact eq_comm

end Task

namespace Batch

variable {b : Batch}

/-- All artifacts are collected when all are there. -/
theorem collect_map_assembled (artifacts : List Artifact) :
    collect (artifacts.map .assembled) = some artifacts := by
  induction artifacts with
  | nil => rfl
  | cons artifact rest ih => rw [List.map_cons, collect, ih, Option.map_some]

/-- What a batch gives that was run in this directory: the artifacts of its units compiled alone, in
the order of the units, and nothing changed in the directory but the scratch files, each as its unit
alone leaves it. When scratch files are not kept, the directory ends as it began exactly if every
unit spares the path of its own: as far as requests are written, if nothing was there. -/
structure Undisturbed (b : Batch) (before : ScratchFiles) (s : State) : Prop where
  returned : ∃ artifacts, s.artifacts? = some artifacts
    ∧ artifacts.length = b.units.length
    ∧ ∀ n u, b.units[n]? = some u →
      artifacts[n]? = some (compileUnit b.invoker (b.scratch n) u b.target?)
  own : ∀ n u, b.units[n]? = some u →
    s.files.get? (b.scratch n)
      = ((unitTask b.invoker (b.scratch n) u).run before).1.get? (b.scratch n)
  others : ∀ p, (∀ n < b.units.length, b.scratch n ≠ p) → s.files.get? p = before.get? p
  restored : b.invoker.keepScratch = false →
    (s.files = before ↔ ∀ n u, b.units[n]? = some u →
      (unitTask b.invoker (b.scratch n) u).Spares (before.get? (b.scratch n)))

variable {before : ScratchFiles} {taken : Nat → Nat} {s : State}

/-- Every unit that has taken five steps has its artifact, and has left its scratch file. -/
theorem alone_of_five_le {n : Nat} (u : BuildUnit) (enough : 5 ≤ taken n) :
    b.alone before n u (taken n)
      = ((unitTask b.invoker (b.scratch n) u).leftOver (before.get? (b.scratch n)),
        .assembled (compileUnit b.invoker (b.scratch n) u b.target?)) :=
  UnitStage.ownSteps_of_five_le b.invoker (b.scratch n) u b.target? _ enough

/-- The artifacts are there when every unit has taken five steps. -/
theorem Tracks.artifacts?_eq (h : b.Tracks before taken s)
    (complete : ∀ n < b.units.length, 5 ≤ taken n) :
    s.artifacts? = some (compileUnits b.invoker b.scratch b.units b.target?) := by
  have assembled : s.stages
      = (compileUnits b.invoker b.scratch b.units b.target?).map .assembled := by
    refine List.ext_getElem? fun n => ?_
    rw [compileUnits, List.getElem?_map, List.getElem?_mapIdx]
    cases hn : b.units[n]? with
    | none =>
      have outside : b.units.length ≤ n := List.getElem?_eq_none_iff.1 hn
      exact List.getElem?_eq_none_iff.2 (h.length ▸ outside)
    | some u =>
      have inside : n < b.units.length := (List.getElem?_eq_some_iff.1 hn).1
      rw [h.stages n u hn, alone_of_five_le u (complete n inside)]
      rfl
  rw [State.artifacts?, assembled, collect_map_assembled]

/-- What is in the scratch files when every unit has taken five steps. -/
theorem Tracks.get?_scratch (h : b.Tracks before taken s)
    (complete : ∀ n < b.units.length, 5 ≤ taken n) {n : Nat} {u : BuildUnit}
    (hn : b.units[n]? = some u) :
    s.files.get? (b.scratch n)
      = (unitTask b.invoker (b.scratch n) u).leftOver (before.get? (b.scratch n)) := by
  have inside : n < b.units.length := (List.getElem?_eq_some_iff.1 hn).1
  rw [h.own n u hn, alone_of_five_le u (complete n inside)]

/-- The directory ends as it began exactly when every scratch file does. -/
theorem Tracks.files_eq_iff (h : b.Tracks before taken s) :
    s.files = before
      ↔ ∀ n < b.units.length, s.files.get? (b.scratch n) = before.get? (b.scratch n) := by
  constructor
  · intro same n _
    rw [same]
  · intro same
    -- a path is that of a scratch file, or nothing has happened there
    refine Dict.ext_get? fun p => ?_
    by_cases taken : ∃ n < b.units.length, b.scratch n = p
    · obtain ⟨n, inside, rfl⟩ := taken
      exact same n inside
    · exact h.others p fun n inside path => taken ⟨n, inside, path⟩

/-- Scratch files that are removed leave the directory as it began, if every unit leaves its path as
it was. -/
theorem Tracks.restored_iff (h : b.Tracks before taken s)
    (complete : ∀ n < b.units.length, 5 ≤ taken n) (removed : b.invoker.keepScratch = false) :
    s.files = before ↔ ∀ n u, b.units[n]? = some u →
      (unitTask b.invoker (b.scratch n) u).Spares (before.get? (b.scratch n)) := by
  have spares (n : Nat) (u : BuildUnit) (hn : b.units[n]? = some u) :
      s.files.get? (b.scratch n) = before.get? (b.scratch n)
        ↔ (unitTask b.invoker (b.scratch n) u).Spares (before.get? (b.scratch n)) := by
    rw [h.get?_scratch complete hn]
    exact Task.leftOver_eq_iff removed _
  rw [h.files_eq_iff]
  constructor
  · intro same n u hn
    exact (spares n u hn).1 (same n (List.getElem?_eq_some_iff.1 hn).1)
  · intro each n inside
    have hn := List.getElem?_eq_getElem inside
    exact (spares n _ hn).2 (each n _ hn)

/-- **Units that are compiled at the same time do not disturb each other.** Their scratch files have
different paths; then, in whatever order the units take their steps, each until it is done, the
batch returns the artifact of every unit as the unit has it alone, and so with the files. -/
theorem run_undisturbed (b : Batch) (before : ScratchFiles) (schedule : List Nat) (apart : b.Apart)
    (complete : ∀ n < b.units.length, 5 ≤ schedule.count n) :
    b.Undisturbed before (b.run schedule (b.start before)) := by
  have run := tracks_run apart before schedule
  refine ⟨⟨_, run.artifacts?_eq complete, List.length_mapIdx, ?_⟩, ?_, run.others,
    run.restored_iff complete⟩
  · intro n u hn
    rw [compileUnits, List.getElem?_mapIdx, hn, Option.map_some]
  · intro n u hn
    rw [run.get?_scratch complete hn, Task.get?_run]
    exact (if_pos rfl).symm

/-- Two units at the same time. The worker answers the first with an empty output and does not start
on the second. -/
def twoUnits : Batch where
  invoker := {
    program := "worker"
    arguments := []
    stackSize := 8
    keepScratch := false
    worker := fun arguments _ =>
      if arguments.contains "0.8.0" then .ran ⟨some (.text "\x7b\x7d"), .text "", .code 0⟩
      else .refused "no such version" }
  scratch n := if n = 0 then "a.json" else "b.json"
  units := [
    { version := "0.8.0", document := .ofSources Dict.empty .empty },
    { version := "0.4.0", document := .ofSources Dict.empty .empty }]
  target? := none

theorem run_undisturbed_twoUnits :
    twoUnits.Undisturbed Dict.empty
      (twoUnits.run [1, 0, 0, 1, 1, 0, 1, 0, 0, 1] (twoUnits.start Dict.empty)) :=
  run_undisturbed twoUnits Dict.empty [1, 0, 0, 1, 1, 0, 1, 0, 0, 1] (by decide) (by decide)

end Batch

end FuzzBundle
