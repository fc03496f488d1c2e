/-
  FuzzBundle.Proofs.TaskRuns — what a task does, seen from its own scratch file.

  A step of a task reads and writes one file, the one at its path. So it can be told without the
  directory: `ownStep` takes what is in that file and the stage, and gives both afterwards. A step
  in a directory is that step at the path and nothing anywhere else (`step_spec`).

  In the same way the outcome of a whole run needs no directory. It is decided by what came of
  writing the request and by what the worker answers to it (`snd_run`), and so is what the run
  leaves in the file (`get?_run`).

  Main statements: `step_spec`, `snd_run`, `get?_run`.
-/
import FuzzBundle.Compiler.Task

namespace FuzzBundle

/-- Files that stay, with one of them singled out. -/
theorem ScratchFiles.get?_untouched (files : ScratchFiles) (path p : String) :
    files.get? p = if path = p then files.get? path else files.get? p := by
  split
  · next h => rw [h]
  · rfl

namespace Task

variable (t : Task)

/-! ## §1. The worker's part -/

/-- What the worker of a task does when it finds this in the scratch file. -/
def answerTo (found : Option Content) : Launch WorkerRun :=
  t.invoker.worker (t.invoker.argumentsFor t.version t.path) found

/-- What is in the scratch file after the worker's part. -/
def leftAfter (found : Option Content) : Option Content :=
  match t.answerTo found with
  | .refused _ => found
  | .ran r => r.left

/-- The failure that the worker's part gives, if any. -/
def failureAfter? (found : Option Content) : Option CompileFailure :=
  match t.answerTo found with
  | .refused reason => some (.worker (.notStarted t.invoker.program reason))
  | .ran r => r.failure?.map .worker

/-- The outcome when this is in the scratch file after the worker's part. -/
def judgeLeft (left : Option Content) : CompileOutcome :=
  match left with
  | some content => .judge t.invoker.wording content t.forced.sourceContents
  | none => .failure (.worker (.leftNothing t.path (t.invoker.wording.unopened t.path)))

/-- The worker's part touches the scratch file and no other. -/
theorem get?_work (files : ScratchFiles) (p : String) :
    (t.work files).1.get? p
      = if t.path = p then t.leftAfter (files.get? t.path) else files.get? p := by
  unfold work leftAfter answerTo
  cases t.invoker.worker (t.invoker.argumentsFor t.version t.path) (files.get? t.path) with
  | refused reason => exact ScratchFiles.get?_untouched files t.path p
  | ran r =>
    cases hl : r.left with
    | some content => simp only [hl]; rw [Dict.get?_insert]
    | none => simp only [hl]; rw [Dict.get?_erase]

theorem snd_work (files : ScratchFiles) :
    (t.work files).2 = t.failureAfter? (files.get? t.path) := by
  unfold work failureAfter? answerTo
  cases t.invoker.worker (t.invoker.argumentsFor t.version t.path) (files.get? t.path) <;> rfl

theorem judge_eq (files : ScratchFiles) : t.judge files = t.judgeLeft (files.get? t.path) := rfl

/-! ## §2. Steps -/

/-- The next step of a task that sees nothing but its scratch file. -/
def ownStep (own : Option Content) : Stage → Option Content × Stage
  | .ready =>
    (t.writing.left t.request own,
      match t.writing.failure? with
      | some reason => .finished (t.unwritten reason)
      | none => .prepared)
  | .prepared => (t.leftAfter own, .worked (t.failureAfter? own))
  | .worked (some failure) => (own, .judged (.failure failure))
  | .worked none => (own, .judged (t.judgeLeft own))
  | .judged outcome => (if t.invoker.keepScratch then own else none, .finished outcome)
  | .finished outcome => (own, .finished outcome)

/-- **A step in a directory is the step on the scratch file, and all other files stay.** -/
theorem step_spec (files : ScratchFiles) (stage : Stage) :
    (t.step files stage).2 = (t.ownStep (files.get? t.path) stage).2
    ∧ ∀ p, (t.step files stage).1.get? p
      = if t.path = p then (t.ownStep (files.get? t.path) stage).1 else files.get? p := by
  -- files are touched when the request is written, by the worker, and when its file is removed
  have still := ScratchFiles.get?_untouched files t.path
  cases stage with
  | ready =>
    unfold step ownStep
    cases t.writing with
    | done => exact ⟨rfl, Dict.get?_insert files t.path _⟩
    | refused reason => exact ⟨rfl, still⟩
    | brokenOff reason written => exact ⟨rfl, Dict.get?_insert files t.path _⟩
  | prepared => exact ⟨congrArg Stage.worked (t.snd_work files), t.get?_work files⟩
  | worked failure? =>
    cases failure? with
    | some failure => exact ⟨rfl, still⟩
    | none => exact ⟨rfl, still⟩
  | judged outcome =>
    unfold step ownStep
    cases t.invoker.keepScratch with
    | true => exact ⟨rfl, still⟩
    | false => exact ⟨rfl, Dict.get?_erase files t.path⟩
  | finished outcome => exact ⟨rfl, still⟩

/-! ## §3. Whole runs -/

/-- What the worker answers to the request. -/
def answer : Launch WorkerRun := t.answerTo (some t.request)

/-- The outcome of what the worker answered to the request. -/
def verdict : CompileOutcome :=
  match t.answer with
  | .refused reason => .failure (.worker (.notStarted t.invoker.program reason))
  | .ran r =>
    match r.failure? with
    | some failure => .failure (.worker failure)
    | none => t.judgeLeft r.left

/-- What follows the worker's part on the request is the verdict. -/
theorem ownStep_worked :
    t.ownStep (t.leftAfter (some t.request)) (.worked (t.failureAfter? (some t.request)))
      = (t.leftAfter (some t.request), .judged t.verdict) := by
  unfold leftAfter failureAfter? verdict answer
  cases t.answerTo (some t.request) with
  | refused reason => rfl
  | ran r => cases h : r.failure? <;> simp only [h] <;> rfl

/-- **A run ends with the worker's verdict, unless the request could not be written.** -/
theorem snd_run (files : ScratchFiles) :
    (t.run files).2 = match t.writing.failure? with
      | some reason => t.unwritten reason
      | none => t.verdict := by
  unfold run
  cases t.writing with
  | refused reason => rfl
  | brokenOff reason written => rfl
  | done =>
    have found : (files.insert t.path t.request).get? t.path = some t.request := by
      rw [Dict.get?_insert, if_pos rfl]
    simp only [FileWrite.failure?, snd_work, judge_eq, get?_work, if_pos, found, verdict, answer]
    unfold failureAfter? leftAfter
    cases t.answerTo (some t.request) with
    | refused reason => rfl
    | ran r => cases h : r.failure? <;> simp [h]

theorem snd_run_of_failure {reason : String} (h : t.writing.failure? = some reason)
    (files : ScratchFiles) : (t.run files).2 = t.unwritten reason := by
  rw [snd_run, h]

theorem snd_run_of_done (h : t.writing = .done) (files : ScratchFiles) :
    (t.run files).2 = t.verdict := by
  rw [snd_run, h]
  rfl

theorem outcome_of_failure {reason : String} (h : t.writing.failure? = some reason) :
    t.outcome = t.unwritten reason := t.snd_run_of_failure h _

theorem outcome_of_done (h : t.writing = .done) : t.outcome = t.verdict := t.snd_run_of_done h _

/-- What a run leaves in the scratch file, which held something else before it. Only a request that
is written is followed by a worker, and by the removal of the file. -/
def leftOver (before : Option Content) : Option Content :=
  match t.writing with
  | .done => if t.invoker.keepScratch then t.leftAfter (some t.request) else none
  | .refused _ => before
  | .brokenOff _ written => some (t.request.upTo written)

theorem leftOver_of_done (h : t.writing = .done) (before : Option Content) :
    t.leftOver before
      = if t.invoker.keepScratch then t.leftAfter (some t.request) else none := by
  rw [leftOver, h]

/-- Of a request that is not written, what was written of it stays. -/
theorem leftOver_of_failure {reason : String} (h : t.writing.failure? = some reason)
    (before : Option Content) : t.leftOver before = t.writing.left t.request before := by
  unfold leftOver
  cases w : t.writing with
  | done =>
    rw [w] at h
    cases h
  | refused _ => rfl
  | brokenOff _ written => rfl

/-- **A run touches the scratch file and no other.** -/
theorem get?_run (files : ScratchFiles) (p : String) :
    (t.run files).1.get? p
      = if t.path = p then t.leftOver (files.get? t.path) else files.get? p := by
  unfold run leftOver
  cases t.writing with
  | refused reason => exact ScratchFiles.get?_untouched files t.path p
  | brokenOff reason written => exact Dict.get?_insert files t.path _ p
  | done =>
    -- whatever was at the path, the worker finds the request there
    have prepared (q : String) : (files.insert t.path t.request).get? q
        = if t.path = q then some t.request else files.get? q := Dict.get?_insert ..
    cases t.invoker.keepScratch with
    | true =>
      simp only [if_true, get?_work, prepared]
      by_cases h : t.path = p <;> simp [h]
    | false =>
      simp only [Bool.false_eq_true, if_false, Dict.get?_erase, get?_work, prepared]
      by_cases h : t.path = p <;> simp [h]

end Task

end FuzzBundle
