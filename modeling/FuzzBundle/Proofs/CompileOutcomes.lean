/-
  FuzzBundle.Proofs.CompileOutcomes — how a compilation ends, decided by what its worker did.

  `Task.Ends` says which outcome a task has, one rule for each way to end. Of the rules the first
  whose condition is met decides: the request cannot be written, the worker is not started, ends
  badly or leaves nothing, what it leaves is not one output document, that document reports errors.
  Otherwise the output is what was left, with the texts of the request in it.

  The rules do not speak of the functions of the library where these decide something: an error is
  told by its letters (`SpellsError`), a message by its two fields (`Diagnostic.Says`), a document
  by what follows it (`Content.IsOutput`), and the texts are laid over entry by entry
  (`Overlaid`).

  Main statement: `Task.run_eq_iff_ends`.
-/
import Mathlib.Data.List.Forall2
import Mathlib.Data.List.TakeWhile
import FuzzBundle.Proofs.TaskRuns

namespace FuzzBundle

/-! ## §1. Errors and their texts -/

/-- A text is the word `error`, each letter of it small or large. -/
def SpellsError (text : String) : Prop :=
  List.Forall₂ (fun c letter => c = letter ∨ c = letter.toUpper) text.toList "error".toList

instance (text : String) : Decidable (SpellsError text) :=
  inferInstanceAs (Decidable (List.Forall₂ _ _ _))

/-- A character becomes a given small letter when it is that letter, small or large. -/
theorem toLower_eq_iff {c letter : Char} (h : letter.isLower = true) :
    c.toLower = letter ↔ c = letter ∨ c = letter.toUpper := by
  -- the small letters are those from 97 to 122, and the large ones stand 32 before them
  have bounds : (decide (letter.val ≥ 'a'.val) && decide (letter.val ≤ 'z'.val)) = true := h
  have small : 97 ≤ letter.toNat ∧ letter.toNat ≤ 122 := by
    simpa [UInt32.le_iff_toNat_le] using bounds
  have up : ('A'.val - 'a'.val).toNat = 2 ^ 32 - 32 := by decide
  have down : ('a'.val - 'A'.val).toNat = 32 := by decide
  have upper : letter.toUpper.toNat = letter.toNat - 32 := by
    unfold Char.toUpper
    rw [dif_pos (by simpa [UInt32.le_iff_toNat_le] using small), ← Char.toNat_val,
      UInt32.toNat_add, up, Char.toNat_val]
    omega
  rw [← Char.toNat_inj, ← Char.toNat_inj, ← Char.toNat_inj, upper]
  unfold Char.toLower
  split
  · next large =>
    have large : 65 ≤ c.toNat ∧ c.toNat ≤ 90 := by
      simpa [UInt32.le_iff_toNat_le] using large
    rw [← Char.toNat_val, UInt32.toNat_add, down, Char.toNat_val]
    omega
  · next other =>
    have other : ¬(65 ≤ c.toNat ∧ c.toNat ≤ 90) := by
      simpa [UInt32.le_iff_toNat_le] using other
    omega

theorem map_toLower_eq_iff {cs letters : List Char}
    (h : ∀ letter ∈ letters, letter.isLower = true) :
    cs.map Char.toLower = letters
      ↔ List.Forall₂ (fun c letter => c = letter ∨ c = letter.toUpper) cs letters := by
  induction letters generalizing cs with
  | nil => rw [List.map_eq_nil_iff, List.forall₂_nil_right_iff]
  | cons letter letters ih =>
    cases cs with
    | nil => exact iff_of_false nofun nofun
    | cons c cs =>
      rw [List.map_cons, List.cons_eq_cons, List.forall₂_cons,
        toLower_eq_iff (h letter List.mem_cons_self),
        ih fun other ho => h other (List.mem_cons_of_mem _ ho)]

namespace Diagnostic

theorem isError_iff (d : Diagnostic) : d.isError = true ↔ SpellsError d.severity := by
  have lower : ∀ letter ∈ "error".toList, letter.isLower = true := List.all_eq_true.1 (by decide)
  rw [isError, beq_iff_eq, map_toLower_eq_iff lower]
  rfl

/-- The text of a message is its formatted text, or the bare one where that is missing or empty. -/
def Says (d : Diagnostic) (text : String) : Prop :=
  (d.formatted? = some text ∧ text ≠ "")
    ∨ ((d.formatted? = none ∨ d.formatted? = some "") ∧ text = d.message)

theorem says_iff {d : Diagnostic} {text : String} : d.Says text ↔ d.text = text := by
  unfold Says Diagnostic.text
  cases d.formatted? with
  | none => simp [eq_comm]
  | some formatted =>
    by_cases h : formatted = ""
    · subst h; simp [eq_comm]
    · simp only [Option.some.injEq, reduceCtorEq, h, if_false, or_self, false_and, or_false]
      constructor
      · exact And.left
      · rintro rfl
        exact ⟨rfl, h⟩

end Diagnostic

/-- The messages of an output that report errors. -/
def CompilerOutput.reported (o : CompilerOutput) : List Diagnostic :=
  o.errors.filter fun d => decide (SpellsError d.severity)

theorem CompilerOutput.reported_eq (o : CompilerOutput) : o.reported = o.errorDiagnostics := by
  refine List.filter_congr fun d _ => ?_
  rw [Bool.eq_iff_iff, decide_eq_true_eq, d.isError_iff]

/-- Texts are those of some messages when they are the texts that `Diagnostic.text` gives. -/
theorem forall₂_says_iff {ds : List Diagnostic} {texts : List String} :
    List.Forall₂ Diagnostic.Says ds texts ↔ ds.map Diagnostic.text = texts := by
  have same : ds.map Diagnostic.text = texts
      ↔ List.Forall₂ (fun d text => d.text = text) ds texts := by
    rw [← List.forall₂_map_left_iff, List.forall₂_eq_eq_eq]
  rw [same]
  exact ⟨List.Forall₂.imp fun _ _ => Diagnostic.says_iff.1,
    List.Forall₂.imp fun _ _ => Diagnostic.says_iff.2⟩

/-! ## §2. Documents -/

/-- A file is one output document: it begins with a document of an output, and after that there is
nothing but blanks. -/
def Content.IsOutput (content : Content) (output : CompilerOutput) : Prop :=
  ∃ document rest, content.scan = some (document, rest)
    ∧ (∀ c ∈ rest, Written.isBlank c = true) ∧ decode document = some output

theorem Content.isOutput_iff {content : Content} {output : CompilerOutput} :
    content.IsOutput output ↔ CompilerOutput.read? content.documentText = some output := by
  have blank (rest : List Char) :
      Written.skipBlanks rest = [] ↔ ∀ c ∈ rest, Written.isBlank c = true :=
    List.dropWhile_eq_nil_iff
  unfold IsOutput CompilerOutput.read? Written.read Content.scan
  cases Written.scan content.documentText with
  | none => simp
  | some read =>
    obtain ⟨document, rest⟩ := read
    by_cases h : Written.skipBlanks rest = []
    · simp [h, ← blank]
    · simp [h, ← blank]

/-! ## §3. Texts laid over an output -/

/-- The text that a request gives for a file. -/
def InputDocument.contentOf? (d : InputDocument) (path : String) : Option String :=
  (d.sources.get? path).bind (·.content?)

/-- An output with the texts of a request in it. No file has an entry that had none, and an entry
changes in its text alone, and only if the request gives one for the file. -/
structure Overlaid (d : InputDocument) (parsed final : CompilerOutput) : Prop where
  errors : final.errors = parsed.errors
  contracts : final.contracts = parsed.contracts
  files : ∀ path, parsed.sources.get? path = none → final.sources.get? path = none
  sources : ∀ path entry, parsed.sources.get? path = some entry → final.sources.get? path
    = some { entry with source? := (d.contentOf? path).or entry.source? }

namespace InputDocument

variable (d : InputDocument)

theorem ascending_sourceContents : Entries.Ascending d.sourceContents := by
  refine List.Pairwise.filterMap _ ?_ d.sources.ascending
  intro a b less a' ha b' hb
  obtain ⟨_, _, rfl⟩ := Option.map_eq_some_iff.1 ha
  obtain ⟨_, _, rfl⟩ := Option.map_eq_some_iff.1 hb
  exact less

theorem get?_sourceContents (path : String) :
    Entries.get? d.sourceContents path = d.contentOf? path := by
  -- a key is found with the values that stand beside it, and no key stands there twice
  have member (content : String) :
      (path, content) ∈ d.sourceContents ↔ d.contentOf? path = some content := by
    unfold sourceContents contentOf?
    rw [List.mem_filterMap, Option.bind_eq_some_iff]
    constructor
    · rintro ⟨⟨p, entry⟩, he, hc⟩
      obtain ⟨_, found, same⟩ := Option.map_eq_some_iff.1 hc
      cases same
      exact ⟨entry, Dict.mem_toList_iff.1 he, found⟩
    · rintro ⟨entry, he, found⟩
      exact ⟨(path, entry), Dict.mem_toList_iff.2 he, by rw [found]; rfl⟩
  refine Option.ext fun content => ?_
  rw [← member content]
  exact ⟨Entries.mem_of_get?, Entries.get?_of_mem d.ascending_sourceContents⟩

end InputDocument

namespace CompilerOutput

/-- Laying one text over an output changes the entry of its file, if there is one. -/
theorem get?_overlaySource (o : CompilerOutput) (path content p : String) :
    (o.overlaySource path content).sources.get? p
      = (o.sources.get? p).map fun entry =>
          if p = path then { entry with source? := some content } else entry := by
  rw [overlaySource, Dict.modify, Dict.get?_map]

/-- Of texts for different files each is laid over the entry of its own file. -/
theorem get?_overlaySources (o : CompilerOutput) {contents : List (String × String)}
    (distinct : Entries.Ascending contents) (p : String) :
    (o.overlaySources contents).sources.get? p
      = (o.sources.get? p).map fun entry =>
          { entry with source? := (Entries.get? contents p).or entry.source? } := by
  induction contents generalizing o with
  | nil => exact Option.map_id'.symm
  | cons first rest ih =>
    obtain ⟨path, content⟩ := first
    obtain ⟨later, distinct⟩ := List.pairwise_cons.1 distinct
    show ((o.overlaySource path content).overlaySources rest).sources.get? p = _
    rw [ih _ distinct, get?_overlaySource, Option.map_map, Entries.get?_cons]
    refine Option.map_congr fun entry _ => ?_
    by_cases h : path = p
    · subst h
      -- no later text is for the same file
      have absent : Entries.get? rest path = none := by
        refine Option.eq_none_iff_forall_ne_some.2 fun other found => ?_
        exact String.lt_irrefl _ (later (path, other) (Entries.mem_of_get? found))
      simp [absent]
    · simp [h, Ne.symm h]

theorem errors_overlaySources (o : CompilerOutput) (contents : List (String × String)) :
    (o.overlaySources contents).errors = o.errors := by
  induction contents generalizing o with
  | nil => rfl
  | cons first rest ih => exact ih (o.overlaySource first.1 first.2)

theorem contracts_overlaySources (o : CompilerOutput) (contents : List (String × String)) :
    (o.overlaySources contents).contracts = o.contracts := by
  induction contents generalizing o with
  | nil => rfl
  | cons first rest ih => exact ih (o.overlaySource first.1 first.2)

/-- **What is laid over an output is one output, and `overlaySources` gives it.** -/
theorem overlaid_iff {d : InputDocument} {parsed final : CompilerOutput} :
    Overlaid d parsed final ↔ parsed.overlaySources d.sourceContents = final := by
  have entries (path : String) := parsed.get?_overlaySources d.ascending_sourceContents path
  constructor
  · intro h
    have sources : (parsed.overlaySources d.sourceContents).sources = final.sources := by
      refine Dict.ext_get? fun path => ?_
      rw [entries, d.get?_sourceContents]
      cases found : parsed.sources.get? path with
      | none => rw [h.files path found]; rfl
      | some entry => rw [h.sources path entry found]; rfl
    have errors := (parsed.errors_overlaySources d.sourceContents).trans h.errors.symm
    have contracts := (parsed.contracts_overlaySources d.sourceContents).trans h.contracts.symm
    cases final
    cases overlaid : parsed.overlaySources d.sourceContents
    rw [overlaid] at sources errors contracts
    rw [mk.injEq]
    exact ⟨errors, sources, contracts⟩
  · rintro rfl
    refine ⟨parsed.errors_overlaySources _, parsed.contracts_overlaySources _, ?_, ?_⟩
    · intro path missing
      rw [entries, missing]
      rfl
    · intro path entry found
      rw [entries, found, d.get?_sourceContents]
      rfl

end CompilerOutput

/-! ## §4. The judgement of an output -/

theorem CompileOutcome.judge_of_isOutput {content : Content} {output : CompilerOutput}
    (h : content.IsOutput output) (wording : Wording) (contents : List (String × String)) :
    CompileOutcome.judge wording content contents = .ofOutput output contents := by
  rw [judge, Content.isOutput_iff.1 h]

theorem CompileOutcome.judge_of_not_isOutput {content : Content}
    (h : ∀ output, ¬ content.IsOutput output) (wording : Wording)
    (contents : List (String × String)) :
    CompileOutcome.judge wording content contents
      = .failure (.malformedOutput (wording.misread .output content)) := by
  have none : CompilerOutput.read? content.documentText = none :=
    Option.eq_none_iff_forall_ne_some.2 fun output read => h output (Content.isOutput_iff.2 read)
  rw [judge, none]

theorem CompileOutcome.ofOutput_of_reported {output : CompilerOutput} (h : output.reported ≠ [])
    (contents : List (String × String)) :
    CompileOutcome.ofOutput output contents
      = .failure (.diagnostics (Text.joinLines (output.reported.map Diagnostic.text))) := by
  rw [ofOutput, CompilerOutput.hasErrors, output.reported_eq] at *
  exact if_pos (by simpa using h)

theorem CompileOutcome.ofOutput_of_unreported {output : CompilerOutput} (h : output.reported = [])
    (contents : List (String × String)) :
    CompileOutcome.ofOutput output contents = .success (output.overlaySources contents) := by
  rw [ofOutput, CompilerOutput.hasErrors, ← output.reported_eq, h]
  rfl

/-! ## §5. How a task ends -/

namespace WorkerRun

theorem failure?_of_well {r : WorkerRun} (h : r.status = .code 0) : r.failure? = none := by
  rw [failure?, h]
  rfl

/-- A worker that ends badly is reported with its error text, or else with the way it ended. -/
theorem failure?_of_ill {r : WorkerRun} (h : r.status ≠ .code 0) :
    r.failure? = some (if Text.trim r.errorText = "" then .ended r.status
      else .reported (Text.trim r.errorText)) := by
  have ill : r.status.success = false := by
    cases hs : r.status with
    | code n => rw [hs] at h; cases n with
      | zero => exact absurd rfl h
      | succ n => rfl
    | signal n dumped => rfl
  rw [failure?, ill]
  rfl

end WorkerRun

namespace Task

/-- The outcomes that a task can have, with the condition for each of them. -/
inductive Ends (t : Task) : CompileOutcome → Prop where
  /-- The request cannot be written, or only a part of it. -/
  | unwritten {reason : String} (failed : t.writing.failure? = some reason) :
    Ends t (.failure (.scratch (t.path ++ ": " ++ reason)))
  /-- The worker cannot be started. -/
  | unstarted {reason : String} (written : t.writing = .done)
    (refused : t.answer = .refused reason) :
    Ends t (.failure (.worker (.notStarted t.invoker.program reason)))
  /-- The worker ends badly and says something about it. -/
  | complained {r : WorkerRun} (written : t.writing = .done) (ran : t.answer = .ran r)
    (ill : r.status ≠ .code 0) (spoken : Text.trim r.errorText ≠ "") :
    Ends t (.failure (.worker (.reported (Text.trim r.errorText))))
  /-- The worker ends badly and says nothing. -/
  | died {r : WorkerRun} (written : t.writing = .done) (ran : t.answer = .ran r)
    (ill : r.status ≠ .code 0) (silent : Text.trim r.errorText = "") :
    Ends t (.failure (.worker (.ended r.status)))
  /-- The worker ends well and leaves no file. -/
  | empty {r : WorkerRun} (written : t.writing = .done) (ran : t.answer = .ran r)
    (well : r.status = .code 0) (gone : r.left = none) :
    Ends t (.failure (.worker (.leftNothing t.path (t.invoker.wording.unopened t.path))))
  /-- What the worker leaves is not one output document. -/
  | malformed {r : WorkerRun} {content : Content} (written : t.writing = .done)
    (ran : t.answer = .ran r) (well : r.status = .code 0) (left : r.left = some content)
    (other : ∀ output, ¬ content.IsOutput output) :
    Ends t (.failure (.malformedOutput (t.invoker.wording.misread .output content)))
  /-- The output reports errors. Their texts stand on lines of their own. -/
  | diagnosed {r : WorkerRun} {content : Content} {output : CompilerOutput} {texts : List String}
    (written : t.writing = .done) (ran : t.answer = .ran r) (well : r.status = .code 0)
    (left : r.left = some content) (reads : content.IsOutput output)
    (erroneous : output.reported ≠ [])
    (texts_are : List.Forall₂ Diagnostic.Says output.reported texts) :
    Ends t (.failure (.diagnostics ("\n".intercalate texts)))
  /-- The output reports no error. -/
  | compiled {r : WorkerRun} {content : Content} {output final : CompilerOutput}
    (written : t.writing = .done) (ran : t.answer = .ran r) (well : r.status = .code 0)
    (left : r.left = some content) (reads : content.IsOutput output)
    (clean : output.reported = []) (overlaid : Overlaid t.document output final) :
    Ends t (.success final)

variable {t : Task}

/-- The verdict about a worker that ended well is the judgement of what it left. -/
theorem verdict_of_well {r : WorkerRun} (ran : t.answer = .ran r) (well : r.status = .code 0) :
    t.verdict = t.judgeLeft r.left := by
  rw [verdict, ran]
  simp only [WorkerRun.failure?_of_well well]

theorem verdict_of_ill {r : WorkerRun} (ran : t.answer = .ran r) (ill : r.status ≠ .code 0) :
    t.verdict = .failure (.worker (if Text.trim r.errorText = "" then .ended r.status
      else .reported (Text.trim r.errorText))) := by
  rw [verdict, ran]
  simp only [WorkerRun.failure?_of_ill ill]

/-- Every task has one of the outcomes. -/
theorem ends_run (t : Task) (files : ScratchFiles) : t.Ends (t.run files).2 := by
  -- one split for each question, in the order in which the run asks them
  cases failed : t.writing.failure? with
  | some reason =>
    rw [t.snd_run_of_failure failed]
    exact .unwritten failed
  | none =>
    have written : t.writing = .done := FileWrite.failure?_eq_none_iff.1 failed
    rw [t.snd_run_of_done written]
    cases ran : t.answer with
    | refused reason =>
      simp only [verdict, ran]
      exact .unstarted written ran
    | ran r =>
      by_cases well : r.status = .code 0
      · rw [verdict_of_well ran well]
        cases left : r.left with
        | none => exact .empty written ran well left
        | some content =>
          show t.Ends (.judge _ content _)
          by_cases reads : ∃ output, content.IsOutput output
          · obtain ⟨output, reads⟩ := reads
            rw [CompileOutcome.judge_of_isOutput reads]
            by_cases clean : output.reported = []
            · rw [CompileOutcome.ofOutput_of_unreported clean]
              exact .compiled written ran well left reads clean
                (CompilerOutput.overlaid_iff.2 rfl)
            · rw [CompileOutcome.ofOutput_of_reported clean]
              exact .diagnosed written ran well left reads clean (forall₂_says_iff.2 rfl)
          · have other : ∀ output, ¬ content.IsOutput output := not_exists.1 reads
            rw [CompileOutcome.judge_of_not_isOutput other]
            exact .malformed written ran well left other
      · rw [verdict_of_ill ran well]
        split
        · next silent => exact .died written ran well silent
        · next spoken => exact .complained written ran well spoken

/-- **A compilation ends as its worker's answer to the request decides**, whatever other files there
are: each outcome is had under its own condition and under no other. -/
theorem run_eq_iff_ends (t : Task) (files : ScratchFiles) (outcome : CompileOutcome) :
    (t.run files).2 = outcome ↔ t.Ends outcome := by
  constructor
  · rintro rfl
    exact ends_run t files
  · intro h
    cases h with
    | unwritten failed => exact t.snd_run_of_failure failed files
    | unstarted written refused => rw [t.snd_run_of_done written, verdict, refused]
    | complained written ran ill spoken =>
      rw [t.snd_run_of_done written, verdict_of_ill ran ill, if_neg spoken]
    | died written ran ill silent =>
      rw [t.snd_run_of_done written, verdict_of_ill ran ill, if_pos silent]
    | empty written ran well gone =>
      rw [t.snd_run_of_done written, verdict_of_well ran well, gone, judgeLeft]
    | malformed written ran well left other =>
      rw [t.snd_run_of_done written, verdict_of_well ran well, left]
      exact CompileOutcome.judge_of_not_isOutput other ..
    | diagnosed written ran well left reads erroneous texts =>
      rw [t.snd_run_of_done written, verdict_of_well ran well, left, judgeLeft,
        CompileOutcome.judge_of_isOutput reads, CompileOutcome.ofOutput_of_reported erroneous,
        forall₂_says_iff.1 texts]
      rfl
    | compiled written ran well left reads clean overlaid =>
      rw [t.snd_run_of_done written, verdict_of_well ran well, left, judgeLeft,
        CompileOutcome.judge_of_isOutput reads, CompileOutcome.ofOutput_of_unreported clean,
        ← CompilerOutput.overlaid_iff.1 overlaid]
      rfl

end Task

end FuzzBundle
