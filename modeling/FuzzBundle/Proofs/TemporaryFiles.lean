/-
  FuzzBundle.Proofs.TemporaryFiles — what is left of files that only a run needs.

  A task writes its request to a path of its own, and Forge puts its build info into a folder with a
  name of its own. Both are removed at the end of a run unless they are to be kept. For Forge the
  removal is the last thing that is done on every path that a run can take, whether the program
  could not be started, failed or left something unreadable, so that nothing remains
  (`without_removeFolder`). So it is for a task from the moment when its request is written. But a
  task whose request is not written is over before the removal, and when the writing broke off,
  there is a file already (`run_of_brokenOff`).

  What is kept is what the program left (`leaves_run`, `leaves_tool`), and whether it is kept makes
  no difference to what the run returns.

  Main statement: `temporaries_tidied_iff`.
-/
import FuzzBundle.Project.Tooling
import FuzzBundle.Proofs.TaskRuns

namespace FuzzBundle

/-! ## §1. The scratch file of a task -/

namespace Task

variable (t : Task)

/-- The task with scratch files that are kept or removed. -/
def keeping (keep : Bool) : Task := { t with invoker := { t.invoker with keepScratch := keep } }

theorem writing_keeping (keep : Bool) : (t.keeping keep).writing = t.writing := rfl

/-- What is left at the path of a task before anything is removed: nothing when no request could be
written, a part of the request when the writing broke off, the request when the worker was not
started, and else what the worker left. -/
inductive Leaves : Option Content → Prop where
  | unwritten {reason : String} (refused : t.writing = .refused reason) : Leaves none
  | brokenOff {reason : String} {written : Nat} (broken : t.writing = .brokenOff reason written) :
    Leaves (some (t.request.upTo written))
  | notStarted {reason : String} (done : t.writing = .done) (refused : t.answer = .refused reason) :
    Leaves (some t.request)
  | ran {r : WorkerRun} (done : t.writing = .done) (ran : t.answer = .ran r) : Leaves r.left

/-- A task whose scratch file is kept leaves the one that the worker left, touches no other file,
and ends as it does when the file is removed. -/
structure Keeps (files : ScratchFiles) : Prop where
  kept : t.Leaves (((t.keeping true).run files).1.get? t.path)
  others : ∀ p, p ≠ t.path → ((t.keeping true).run files).1.get? p = files.get? p
  same : ((t.keeping false).run files).2 = ((t.keeping true).run files).2

/-- Besides, it leaves no file when scratch files are removed. -/
structure Tidied (files : ScratchFiles) : Prop extends t.Keeps files where
  removed : ((t.keeping false).run files).1 = files

variable {t} {files : ScratchFiles}

/-- **A request of which only a part is written stays**, whether or not scratch files are kept. -/
theorem run_of_brokenOff {reason : String} {written : Nat}
    (broken : t.writing = .brokenOff reason written) (keep : Bool) (files : ScratchFiles) :
    ((t.keeping keep).run files).1 = files.insert t.path (t.request.upTo written) := by
  rw [run, writing_keeping, broken]
  rfl

/-- **Nothing of a task is left when its scratch file is removed**, if nothing was at the path,
exactly unless the writing of its request broke off. -/
theorem run_keeping_false_iff (unused : files.get? t.path = none) :
    ((t.keeping false).run files).1 = files
      ↔ ∀ reason written, t.writing ≠ .brokenOff reason written := by
  constructor
  · rintro clean reason written broken
    -- there would be a file at the path
    have own := congrArg (Dict.get? · t.path) clean
    rw [run_of_brokenOff broken, Dict.get?_insert, if_pos rfl, unused] at own
    cases own
  · intro whole
    refine Dict.ext_get? fun p => ?_
    rw [get?_run]
    split
    · next own =>
      cases own
      show (t.keeping false).leftOver (files.get? t.path) = files.get? t.path
      rw [unused]
      cases w : t.writing with
      | done => exact ((t.keeping false).leftOver_of_done w none).trans (if_neg nofun)
      | refused reason => rw [leftOver, writing_keeping, w]
      | brokenOff reason written => exact absurd w (whole reason written)
    · rfl

/-- **What is left of a task whose scratch file is kept is what the worker left.** -/
theorem leaves_run (unused : files.get? t.path = none) :
    t.Leaves (((t.keeping true).run files).1.get? t.path) := by
  have left : ((t.keeping true).run files).1.get? t.path
      = (t.keeping true).leftOver (files.get? t.path) := by
    rw [get?_run]
    exact if_pos rfl
  -- what the worker left is what it made of the request, since nothing was at the path before
  rw [left, unused]
  cases w : t.writing with
  | refused reason =>
    rw [leftOver, writing_keeping, w]
    exact .unwritten w
  | brokenOff reason written =>
    rw [leftOver, writing_keeping, w]
    exact .brokenOff w
  | done =>
    rw [(t.keeping true).leftOver_of_done w]
    show t.Leaves (t.leftAfter (some t.request))
    rw [leftAfter]
    cases answer : t.answerTo (some t.request) with
    | refused reason => exact .notStarted w answer
    | ran r => exact .ran w answer

theorem keeps (unused : files.get? t.path = none) : t.Keeps files where
  kept := leaves_run unused
  others p other := by
    rw [get?_run]
    exact if_neg (Ne.symm other)
  same := by
    rw [snd_run, snd_run]
    rfl

theorem tidied_iff (unused : files.get? t.path = none) :
    t.Tidied files ↔ ∀ reason written, t.writing ≠ .brokenOff reason written := by
  rw [← run_keeping_false_iff unused]
  exact ⟨Tidied.removed, fun removed => { keeps unused with removed }⟩

end Task

/-! ## §2. The build info of Forge -/

namespace Tree

/-- Removing an entry of a folder leaves nothing there, and everything else. -/
theorem at?_remove (t : Tree) (name other : String) (names : List String) :
    (t.remove [name]).at? (other :: names)
      = if name = other then none else t.at? (other :: names) := by
  -- only the first name is looked up in the folder that changed
  have child : (t.remove [name]).child? other = if name = other then none else t.child? other := by
    cases t with
    | file content => exact (ite_self none).symm
    | folder entries =>
      refine (Entries.get?_filter entries (fun key => decide (key ≠ name)) other).trans ?_
      by_cases own : name = other
      · rw [if_neg (by simp [own]), if_pos own]
      · rw [if_pos (by simp [Ne.symm own]), if_neg own]
        rfl
  rw [at?, at?, child]
  by_cases own : name = other
  · rw [if_pos own, if_pos own]
  · rw [if_neg own, if_neg own]

end Tree

namespace Workshop

/-- What some names lead to in the project. -/
def at? (w : Workshop) (names : List String) : Option Tree :=
  w.project.tree?.bind (·.at? names)

/-- The second workshop is the first one without the folder of a name. -/
structure Without (name : String) (before after : Workshop) : Prop where
  gone : after.folder? [name] = none
  others : ∀ other names, other ≠ name → after.at? (other :: names) = before.at? (other :: names)
  untouched : before.folder? [name] = none → after = before
  tree : { after with project := { after.project with tree? := before.project.tree? } } = before

/-- **A folder that is removed is gone, and nothing else is.** -/
theorem without_removeFolder (w : Workshop) (name : String) :
    w.Without name (w.removeFolder name) := by
  rw [removeFolder]
  split
  · next there =>
    -- nothing of the workshop changes but what is in the folder of the project
    refine ⟨?_, fun other names differs => ?_, fun none => ?_, rfl⟩
    · show (w.project.tree?.map (·.remove [name])).bind (·.folder? [name]) = none
      cases w.project.tree? with
      | none => rfl
      | some tree => simp [Tree.folder?, Tree.at?_remove]
    · show (w.project.tree?.map (·.remove [name])).bind (·.at? (other :: names)) = _
      rw [at?]
      cases w.project.tree? with
      | none => rfl
      | some tree => simp [Tree.at?_remove, Ne.symm differs]
    · rw [none] at there
      cases there
  · next none =>
    exact ⟨Option.not_isSome_iff_eq_none.1 none, fun _ _ _ => rfl, fun _ => rfl, rfl⟩

/-- What is in the folder of a project after a tool was to be run there. -/
inductive Leaves (w : Workshop) (toolbox : Toolbox) (program : String) (arguments : List String) :
    Option Tree → Prop where
  | nowhere (missing : w.project.tree? = none) : Leaves w toolbox program arguments none
  | notStarted {tree : Tree} {reason : String} (here : w.project.tree? = some tree)
    (refused : toolbox program arguments tree = .refused reason) :
    Leaves w toolbox program arguments (some tree)
  | ran {tree : Tree} {r : ToolRun} (here : w.project.tree? = some tree)
    (done : toolbox program arguments tree = .ran r) :
    Leaves w toolbox program arguments (some r.tree)

/-- **What is in the folder afterwards is what the tool left**, whether or not it failed. -/
theorem leaves_tool (w : Workshop) (toolbox : Toolbox) (program : String)
    (arguments : List String) :
    w.Leaves toolbox program arguments (w.run toolbox program arguments).2.project.tree? := by
  cases here : w.project.tree? with
  | none =>
    have same : (w.run toolbox program arguments).2 = w := by simp only [run, here]
    rw [same, here]
    exact .nowhere here
  | some tree =>
    cases done : toolbox program arguments tree with
    | refused reason =>
      have same : (w.run toolbox program arguments).2 = w := by simp only [run, here, done]
      rw [same, here]
      exact .notStarted here done
    | ran r =>
      have left : (w.run toolbox program arguments).2.project.tree? = some r.tree := by
        simp only [run, here, done]
        split <;> rfl
      rw [left]
      exact .ran here done

end Workshop

/-- The configuration with temporary files that are kept or removed. -/
def Configuration.keeping (c : Configuration) (keep : Bool) : Configuration :=
  { c with keepScratch := keep }

namespace Tooling

/-- A build with Forge leaves no build info when temporary files are removed, and what Forge left
when they are kept. -/
structure Tidied (toolbox : Toolbox) (c : Configuration) (name : String) (w : Workshop) :
    Prop where
  same : (buildWithForge toolbox (c.keeping false) name w).1
    = (buildWithForge toolbox (c.keeping true) name w).1
  kept : w.Leaves toolbox c.forgeProgram
    (forgeArguments (Path.join w.project.absolutePath name) c.optimizerRuns)
    (buildWithForge toolbox (c.keeping true) name w).2.project.tree?
  removed : (buildWithForge toolbox (c.keeping true) name w).2.Without name
    (buildWithForge toolbox (c.keeping false) name w).2

theorem tidied (toolbox : Toolbox) (c : Configuration) (name : String) (w : Workshop) :
    Tidied toolbox c name w where
  same := rfl
  kept := w.leaves_tool ..
  removed := Workshop.without_removeFolder _ name

end Tooling

/-! ## §3. Both -/

/-- **Temporary files do not outlive a run, and no result depends on whether they are kept.** This
is so for every tool, and for every worker, whatever comes of the run, exactly unless the writing of
a request breaks off: then what was written of it stays in any case. -/
theorem temporaries_tidied_iff (t : Task) (files : ScratchFiles)
    (unused : files.get? t.path = none) (toolbox : Toolbox) (c : Configuration) (name : String)
    (w : Workshop) :
    t.Keeps files
      ∧ (t.Tidied files ↔ ∀ reason written, t.writing ≠ .brokenOff reason written)
      ∧ (∀ reason written, t.writing = .brokenOff reason written → ∀ keep,
        ((t.keeping keep).run files).1 = files.insert t.path (t.request.upTo written))
      ∧ Tooling.Tidied toolbox c name w :=
  ⟨Task.keeps unused, Task.tidied_iff unused,
    fun _ _ broken keep => Task.run_of_brokenOff broken keep files,
    Tooling.tidied toolbox c name w⟩

/-- A task with a worker that is killed when it has written a part of its answer. What comes of
writing its request is given. -/
def killedTask (write : FileWrite) : Task where
  invoker := {
    program := "worker"
    arguments := []
    stackSize := 8
    keepScratch := false
    writing := fun _ _ => write
    worker := fun _ _ => .ran ⟨some (.text "\x7b\"sources\""), .text "", .signal 9 false⟩ }
  path := "1.json"
  version := "0.8.19"
  document := .ofSources .empty .empty

/-- A tool that fails when it has written one fragment of build info. -/
def failingForge : Toolbox := fun _ _ tree =>
  .ran ⟨tree.put ["build-info-1", "a.json"] (.file (.text "\x7b\x7d")), .text "stack too deep",
    .code 1⟩

/-- The folder of an empty project. -/
def emptyWorkshop : Workshop := ⟨⟨".", "/project", some .empty, none, {}⟩, []⟩

theorem temporaries_tidied_iff_failing :
    (killedTask .done).Tidied .empty
      ∧ ¬ (killedTask (.brokenOff "No space left on device" 0)).Tidied .empty
      ∧ Tooling.Tidied failingForge .default "build-info-1" emptyWorkshop := by
  obtain ⟨-, whole, -, forge⟩ := temporaries_tidied_iff (killedTask .done) .empty rfl
    failingForge .default "build-info-1" emptyWorkshop
  obtain ⟨-, broken, -, -⟩ := temporaries_tidied_iff
    (killedTask (.brokenOff "No space left on device" 0)) .empty rfl failingForge .default
    "build-info-1" emptyWorkshop
  exact ⟨whole.2 nofun, fun tidied => broken.1 tidied _ _ rfl, forge⟩

/-- On a full disk the file is made, and nothing can be written to it. It stays. -/
theorem not_always_tidied :
    ¬ ∀ (t : Task) (files : ScratchFiles), files.get? t.path = none →
      ((t.keeping false).run files).1 = files := by
  intro always
  have clean := always (killedTask (.brokenOff "No space left on device" 0)) .empty rfl
  have none := congrArg (Dict.get? · "1.json") clean
  rw [Task.run_of_brokenOff rfl, Dict.get?_insert] at none
  cases none

end FuzzBundle
