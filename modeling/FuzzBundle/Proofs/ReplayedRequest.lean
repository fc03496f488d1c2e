/-
  FuzzBundle.Proofs.ReplayedRequest — compiling a recorded request again.

  The forced outputs are selected before a unit is compiled, and once more before its request is
  written for the worker. As forcing once is enough, the request that the artifact records is the
  one that is written, and written again it is the same text.

  What a worker reads from that text is the recorded request up to its doubles: language, paths,
  texts and selection come through, and so do the other fields if their doubles are steady
  (`InputDocument.rereads_iff`). So the recorded request is what the worker reads exactly if all the
  doubles that the unit keeps are steady (`compileUnit_replayed`).

  Main statements: `InputDocument.rereads_iff`, `InputDocument.rereads_self_iff`,
  `compileUnit_replayed`.
-/
import FuzzBundle.Bundle.Build
import FuzzBundle.Proofs.ForcedOutputs
import FuzzBundle.Proofs.RestoredArtifacts
import FuzzBundle.Proofs.TaskRuns
import FuzzBundle.Proofs.TextReading

namespace FuzzBundle

/-! ## §1. Requests read from their texts -/

/-- What a source entry is read as: the same text, and other fields as values are read. -/
structure SourceEntry.ReadAs (e e' : SourceEntry) : Prop where
  content : e'.content? = e.content?
  extra : e.extra.Pointwise Rereads e'.extra

/-- What settings are read as. -/
structure InputSettings.ReadAs (s s' : InputSettings) : Prop where
  remappings : s'.remappings = s.remappings
  outputSelection : s'.outputSelection = s.outputSelection
  extra : s.extra.Pointwise Rereads s'.extra

/-- What a request is read as: nothing but its other fields can be different. -/
structure InputDocument.ReadAs (d d' : InputDocument) : Prop where
  language : d'.language = d.language
  sources : d.sources.Pointwise SourceEntry.ReadAs d'.sources
  settings : d.settings.ReadAs d'.settings

theorem SourceEntry.rereads_iff {e e' : SourceEntry} (h : UnknownTo ["content"] e.extra) :
    Rereads e e' ↔ e.ReadAs e' := by
  let fields := writtenIfAny "content" e.content? ++ writtenEach e.extra
  have keys : ((writtenIfAny "content" e.content?).map Prod.fst).Sublist ["content"] :=
    keys_writtenIfAny "content" e.content?
  have distinct : (fields.map Prod.fst).Nodup := nodup_keys_append keys (by decide) h
  have content : Entries.get? fields "content" = e.content?.map encode := by
    rw [get?_append_writtenEach h (by decide), get?_writtenIfAny, if_pos rfl]
  rw [FuzzBundle.rereads_iff]
  show ((Written.object fields).readBack.slots? ["content"] >>= fun s => _) = some e' ↔ _
  rw [Written.slots?_readBack distinct, Option.bind_eq_bind, Option.bind_some]
  constructor
  · intro read
    obtain ⟨content?, readContent, read⟩ := Option.bind_eq_some_iff.1 read
    obtain ⟨extra, readExtra, read⟩ := Option.bind_eq_some_iff.1 read
    cases read
    exact ⟨rereadsIfAny_verbatim_iff.1 ((optional_slotsBack_iff content).1 readContent),
      (unknownFields_readBack_iff keys h).1 readExtra⟩
  · intro same
    refine Option.bind_eq_some_iff.2
      ⟨e'.content?, ?_, Option.bind_eq_some_iff.2 ⟨e'.extra, ?_, rfl⟩⟩
    · exact (optional_slotsBack_iff content).2 (rereadsIfAny_verbatim_iff.2 same.content)
    · exact (unknownFields_readBack_iff keys h).2 same.extra

theorem InputSettings.rereads_iff {s s' : InputSettings}
    (h : UnknownTo ["remappings", "outputSelection"] s.extra) : Rereads s s' ↔ s.ReadAs s' := by
  let front := (if s.remappings.isEmpty then [] else written "remappings" s.remappings)
    ++ written "outputSelection" s.outputSelection
  have keys : (front.map Prod.fst).Sublist ["remappings", "outputSelection"] := by
    show (((if s.remappings.isEmpty then [] else _) ++ _).map Prod.fst).Sublist _
    split
    · exact List.sublist_cons_self _ _
    · exact List.Sublist.refl _
  have distinct : ((front ++ writtenEach s.extra).map Prod.fst).Nodup :=
    nodup_keys_append keys (by decide) h
  have selection : Entries.get? (front ++ writtenEach s.extra) "outputSelection"
      = some (encode s.outputSelection) := by
    rw [get?_append_writtenEach h (by decide), Entries.get?_append]
    split <;> rfl
  -- remappings that are left out when there are none are none when they are missing
  have remappings : (slotsBack (front ++ writtenEach s.extra)).withDefault "remappings" []
      = some s.remappings := by
    have there : Entries.get? (front ++ writtenEach s.extra) "remappings"
        = if s.remappings.isEmpty then none else some (encode s.remappings) := by
      rw [get?_append_writtenEach h (by decide), Entries.get?_append]
      split <;> rfl
    split at there
    · next none =>
      rw [withDefault_slotsBack_missing there, List.isEmpty_iff.1 none]
    · exact (withDefault_slotsBack_iff there).2 (rereads_iff_eq.2 rfl)
  rw [FuzzBundle.rereads_iff]
  show ((Written.object (front ++ writtenEach s.extra)).readBack.slots?
    ["remappings", "outputSelection"] >>= fun s => _) = some s' ↔ _
  rw [Written.slots?_readBack distinct, Option.bind_eq_bind, Option.bind_some, ← slotsBack,
    remappings, Option.bind_eq_bind, Option.bind_some]
  constructor
  · intro read
    obtain ⟨selected, readSelection, read⟩ := Option.bind_eq_some_iff.1 read
    obtain ⟨extra, readExtra, read⟩ := Option.bind_eq_some_iff.1 read
    cases read
    exact ⟨rfl, rereads_iff_eq.1 ((withDefault_slotsBack_iff selection).1 readSelection),
      (unknownFields_readBack_iff keys h).1 readExtra⟩
  · intro same
    refine Option.bind_eq_some_iff.2
      ⟨s'.outputSelection, ?_, Option.bind_eq_some_iff.2 ⟨s'.extra, ?_, ?_⟩⟩
    · exact (withDefault_slotsBack_iff selection).2 (rereads_iff_eq.2 same.outputSelection)
    · exact (unknownFields_readBack_iff keys h).2 same.extra
    · rw [← same.remappings]
      rfl

namespace InputDocument

/-- **What is read from the text of a request** is the request up to its other fields, and these
are read as values are. -/
theorem rereads_iff {d d' : InputDocument} (h : d.Kept) : Rereads d d' ↔ d.ReadAs d' := by
  let fields := written "language" d.language ++ written "sources" d.sources
    ++ written "settings" d.settings
  have distinct : (fields.map Prod.fst).Nodup := by
    show (["language", "sources", "settings"] : List String).Nodup
    decide
  have language : Entries.get? fields "language" = some (encode d.language) := rfl
  have sources : Entries.get? fields "sources" = some (encode d.sources) := rfl
  have settings : Entries.get? fields "settings" = some (encode d.settings) := rfl
  -- every entry is kept, so it is read as an entry of a request is
  have entries (read : Dict SourceEntry) :
      Rereads d.sources read ↔ d.sources.Pointwise SourceEntry.ReadAs read := by
    rw [rereads_dict_iff]
    exact Dict.pointwise_congr fun path entry found _ =>
      SourceEntry.rereads_iff (h.sources path entry found)
  rw [FuzzBundle.rereads_iff]
  show ((Written.object fields).readBack.slots? ["language", "sources", "settings"]
    >>= fun s => _) = some d' ↔ _
  rw [Written.slots?_readBack distinct, Option.bind_eq_bind, Option.bind_some]
  constructor
  · intro read
    obtain ⟨l, readLanguage, read⟩ := Option.bind_eq_some_iff.1 read
    obtain ⟨f, readSources, read⟩ := Option.bind_eq_some_iff.1 read
    obtain ⟨s, readSettings, read⟩ := Option.bind_eq_some_iff.1 read
    cases read
    exact ⟨rereads_iff_eq.1 ((required_slotsBack_iff language).1 readLanguage),
      (entries f).1 ((required_slotsBack_iff sources).1 readSources),
      (InputSettings.rereads_iff h.settings).1
        ((withDefault_slotsBack_iff settings).1 readSettings)⟩
  · intro same
    refine Option.bind_eq_some_iff.2 ⟨d'.language, ?_, Option.bind_eq_some_iff.2
      ⟨d'.sources, ?_, Option.bind_eq_some_iff.2 ⟨d'.settings, ?_, rfl⟩⟩⟩
    · exact (required_slotsBack_iff language).2 (rereads_iff_eq.2 same.language)
    · exact (required_slotsBack_iff sources).2 ((entries _).2 same.sources)
    · exact (withDefault_slotsBack_iff settings).2
        ((InputSettings.rereads_iff h.settings).2 same.settings)

/-! ## §2. Requests that are read as they were -/

/-- Every value that a request has besides the fields it knows has a property. -/
structure EachExtra (P : Json → Prop) (d : InputDocument) : Prop where
  sources : ∀ path entry, d.sources.get? path = some entry →
    ∀ key value, entry.extra.get? key = some value → P value
  settings : ∀ key value, d.settings.extra.get? key = some value → P value

/-- All doubles that a request has besides the fields it knows are steady. -/
abbrev Steady (d : InputDocument) : Prop := d.EachExtra Json.Steady

/-- A request that was read from a document with integers of 64 bits, as every document of a text
is (`Written.fits_of_read`). -/
def WasParsed (d : InputDocument) : Prop := ∃ w : Written, w.Fits ∧ decode w = some d

theorem WasParsed.kept {d : InputDocument} (h : d.WasParsed) : d.Kept := by
  obtain ⟨w, -, decoded⟩ := h
  exact kept_of_decode decoded

/-- The numbers of a request are numbers of the document that it was read from. -/
theorem eachExtra_of_decode {P : Json.Number → Prop} {w : Written} {d : InputDocument}
    (each : w.EachNumber P) (decoded : decode w = some d) :
    d.EachExtra (Json.EachNumber P) := by
  have decoded : (w.slots? ["language", "sources", "settings"] >>= _) = some d := decoded
  obtain ⟨s, slots, decoded⟩ := Option.bind_eq_some_iff.1 decoded
  obtain ⟨language, -, decoded⟩ := Option.bind_eq_some_iff.1 decoded
  obtain ⟨sources, readSources, decoded⟩ := Option.bind_eq_some_iff.1 decoded
  obtain ⟨settings, readSettings, decoded⟩ := Option.bind_eq_some_iff.1 decoded
  cases decoded
  constructor
  · intro path entry found key value there
    obtain ⟨files, given, read⟩ := Option.bind_eq_some_iff.1 readSources
    obtain ⟨file, eachFile, readEntry⟩ :=
      (each.get?_slots slots given).exists_decode read found
    obtain ⟨fields, rfl, extra⟩ := SourceEntry.exists_unknownFields readEntry
    exact eachFile.unknownFields extra there
  · intro key value there
    rw [Slots.withDefault] at readSettings
    split at readSettings
    · next given =>
      obtain ⟨fields, rfl, extra⟩ := InputSettings.exists_unknownFields readSettings
      exact (each.get?_slots slots given).unknownFields extra there
    · cases readSettings
      cases there

/-- Other fields are read as they were if their doubles are steady. -/
theorem pointwise_extra_iff {known : List String} {extra : Dict Json}
    (unknown : UnknownTo known extra)
    (fits : ∀ key value, extra.get? key = some value → value.EachNumber Json.Number.Fits) :
    extra.Pointwise Rereads extra ↔ ∀ key value, extra.get? key = some value → value.Steady := by
  rw [Dict.pointwise_self_iff]
  exact forall₃_congr fun key value found =>
    Json.rereads_self_iff (unknown key value found).2 (fits key value found)

/-- **A request is read as it was exactly if all the doubles that it keeps are steady.** -/
theorem rereads_self_iff {d : InputDocument} (kept : d.Kept)
    (fits : d.EachExtra (Json.EachNumber Json.Number.Fits)) : Rereads d d ↔ d.Steady := by
  rw [rereads_iff kept]
  constructor
  · intro same
    constructor
    · intro path entry found
      have own : entry.ReadAs entry := Dict.pointwise_self_iff.1 same.sources path entry found
      exact (pointwise_extra_iff (kept.sources path entry found)
        (fits.sources path entry found)).1 own.extra
    · exact (pointwise_extra_iff kept.settings fits.settings).1 same.settings.extra
  · intro steady
    refine ⟨rfl, Dict.pointwise_self_iff.2 fun path entry found => ⟨rfl, ?_⟩, rfl, rfl, ?_⟩
    · exact (pointwise_extra_iff (kept.sources path entry found)
        (fits.sources path entry found)).2 (steady.sources path entry found)
    · exact (pointwise_extra_iff kept.settings fits.settings).2 steady.settings

/-- Forcing outputs leaves the other fields as they are. -/
theorem eachExtra_withForcedOutputs {P : Json → Prop} {d : InputDocument} :
    d.withForcedOutputs.EachExtra P ↔ d.EachExtra P :=
  ⟨fun h => ⟨h.sources, h.settings⟩, fun h => ⟨h.sources, h.settings⟩⟩

theorem Kept.withForcedOutputs {d : InputDocument} (h : d.Kept) : d.withForcedOutputs.Kept :=
  ⟨h.sources, h.settings⟩

/-- A forced request is read as it was exactly if the request it was forced from keeps nothing but
steady doubles. -/
theorem rereads_withForcedOutputs_iff {d : InputDocument} (h : d.WasParsed) :
    Rereads d.withForcedOutputs d.withForcedOutputs ↔ d.Steady := by
  have kept : d.withForcedOutputs.Kept := h.kept.withForcedOutputs
  obtain ⟨w, fits, decoded⟩ := h
  rw [rereads_self_iff kept (eachExtra_withForcedOutputs.2 (eachExtra_of_decode fits decoded))]
  exact eachExtra_withForcedOutputs

/-- Whatever is read of a request has the outputs forced if the request has. -/
theorem ReadAs.hasForcedOutputs {d d' : InputDocument} (h : d.ReadAs d') :
    d'.settings.hasForcedOutputs = d.settings.hasForcedOutputs := by
  rw [InputSettings.hasForcedOutputs, InputSettings.hasForcedOutputs, h.settings.outputSelection]

end InputDocument

/-! ## §3. What a worker finds -/

namespace Task

/-- What the worker of a task finds in the scratch file when its turn comes. -/
def found? (t : Task) (files : ScratchFiles) : Option Content :=
  match t.step files .ready with
  | (files, .prepared) => files.get? t.path
  | _ => none

/-- If the scratch file is written the worker finds the forced request in it. -/
theorem found?_of_done {t : Task} (h : t.writing = .done) (files : ScratchFiles) :
    t.found? files = some (.text t.forced.text) := by
  rw [found?, step, h]
  show (files.insert t.path t.request).get? t.path = _
  rw [Dict.get?_insert, if_pos rfl, request]

/-- It is the request itself if the outputs are forced already. -/
theorem found?_of_hasForcedOutputs {t : Task} (written : t.writing = .done)
    (forced : t.document.settings.hasForcedOutputs = true) (files : ScratchFiles) :
    t.found? files = some (.text t.document.text) := by
  rw [found?_of_done written, Task.forced,
    InputDocument.withForcedOutputs_of_hasForcedOutputs forced]

end Task

/-! ## §4. Compiling again -/

/-- A unit whose artifact is a success had its request written, and the artifact records it. -/
theorem args?_of_success {i : Invoker} {path : String} {u : BuildUnit} {target? : Option String}
    (success : (compileUnit i path u target?).success = true) :
    (unitTask i path u).writing = .done
      ∧ (compileUnit i path u target?).args? = some (forcedUnit u) := by
  rcases Artifact.assemble_cases (unitTask i path u).outcome (forcedUnit u) target? with
    ⟨error, failed, -⟩ | ⟨o, units, compiled, -, filled⟩
  · rw [compileUnit, failed] at success
    cases success
  · refine ⟨?_, by rw [compileUnit, filled]; rfl⟩
    cases failed : (unitTask i path u).writing.failure? with
    | none => exact FileWrite.failure?_eq_none_iff.1 failed
    | some reason =>
      rw [(unitTask i path u).outcome_of_failure failed] at compiled
      cases compiled

/-- What an artifact records of a compilation: the unit with the outputs forced, and with that the
request that the worker found, whoever compiles it. -/
structure RecordedRun (i : Invoker) (path : String) (u : BuildUnit) (args : CompilerArgs)
    (request : Content) : Prop where
  version : args.version = u.version
  document : args.document = u.document.withForcedOutputs
  forced : args.document.settings.hasForcedOutputs = true
  found : ∀ files, (unitTask i path u).found? files = some request
  read : ∀ d : InputDocument, Recorded.ofText? request.documentText = some d →
    args.document.ReadAs d ∧ d.settings.hasForcedOutputs = true
  read_same_iff : Recorded.ofText? request.documentText = some args.document
    ↔ u.document.Steady
  again : ∀ (i' : Invoker) (path' : String) (files : ScratchFiles),
    (⟨i', path', args.version, args.document⟩ : Task).writing = .done →
    Task.found? ⟨i', path', args.version, args.document⟩ files = some request

theorem recordedRun {i : Invoker} {path : String} {u : BuildUnit}
    (written : (unitTask i path u).writing = .done) (parsed : u.document.WasParsed) :
    RecordedRun i path u (forcedUnit u) (.text (forcedUnit u).document.text) := by
  have forced : (forcedUnit u).document.settings.hasForcedOutputs = true :=
    u.document.hasForcedOutputs_withForcedOutputs
  have kept : (forcedUnit u).document.Kept := parsed.kept.withForcedOutputs
  constructor
  case version => rfl
  case document => rfl
  case forced => exact forced
  case found => exact Task.found?_of_hasForcedOutputs written forced
  case read =>
    intro d read
    have same : (forcedUnit u).document.ReadAs d := (InputDocument.rereads_iff kept).1 read
    exact ⟨same, same.hasForcedOutputs.trans forced⟩
  case read_same_iff => exact InputDocument.rereads_withForcedOutputs_iff parsed
  case again =>
    intro i' path' files written'
    exact Task.found?_of_hasForcedOutputs written' forced files

/-- **A successful artifact records the request that its worker found.** Compiled again it is the
same text, and what is read from that text is the recorded request exactly if all the doubles that
the unit keeps are steady. -/
theorem compileUnit_replayed (i : Invoker) (path : String) (u : BuildUnit)
    (target? : Option String) (parsed : u.document.WasParsed)
    (success : (compileUnit i path u target?).success = true) :
    ∃ args request, (compileUnit i path u target?).args? = some args
      ∧ RecordedRun i path u args request := by
  obtain ⟨written, recorded⟩ := args?_of_success success
  exact ⟨forcedUnit u, _, recorded, recordedRun written parsed⟩

/-- A worker that answers with a file that has a syntax tree, whatever it is asked. -/
def treeInvoker : Invoker where
  program := "worker"
  arguments := []
  stackSize := 67108864
  keepScratch := false
  worker _ _ := .ran ⟨some (.text (Artifact.poolAnswer "\x7b\x7d")), .text "", .code 0⟩

/-- A unit of one file, of which a build tool says a double besides its text. -/
def weightedUnit (weight : Binary64) : BuildUnit where
  version := "0.8.19"
  document := .ofSources
    (Dict.empty.insert "A.sol"
      ⟨some "contract Pool \x7b\x7d", Dict.empty.insert "weight" (.number (.real weight))⟩)
    .empty

theorem wasParsed_weightedUnit (weight : Binary64) : (weightedUnit weight).document.WasParsed := by
  refine ⟨.object [("language", .string "Solidity"), ("sources", .object [("A.sol", .object [
    ("content", .string "contract Pool \x7b\x7d"), ("weight", .number (.real weight))])])], ?_, rfl⟩
  simp [Written.Fits, Written.EachNumber, Written.EachNumberFields, Json.Number.Fits]

theorem success_weightedUnit (weight : Binary64) :
    (compileUnit treeInvoker "scratch.json" (weightedUnit weight) none).success = true := by
  let task := unitTask treeInvoker "scratch.json" (weightedUnit weight)
  let answer := Artifact.poolAnswer "\x7b\x7d"
  have verdict : task.outcome
      = .judge task.invoker.wording (.text answer) task.forced.sourceContents := by
    rw [Task.outcome_of_done _ rfl]
    exact Task.verdict_of_well (r := ⟨some (.text answer), .text "", .code 0⟩) rfl rfl
  have judged (contents : List (String × String)) :
      CompileOutcome.judge task.invoker.wording (.text answer) contents
      = .success ((Artifact.poolOutput none).overlaySources contents) := by
    rw [CompileOutcome.judge, Content.documentText, Artifact.read_poolAnswer_bare]
    rfl
  rw [compileUnit, verdict, judged]
  rfl

theorem steady_weightedUnit (weight : Binary64) (h : (Json.Number.real weight).Steady) :
    (weightedUnit weight).document.Steady := by
  refine ⟨fun path entry found key value there => ?_, nofun⟩
  obtain ⟨-, rfl⟩ := Dict.eq_of_get?_single found
  obtain ⟨-, rfl⟩ := Dict.eq_of_get?_single there
  exact h

/-- One half is read where it was written, and so is the request that it is part of. -/
theorem compileUnit_replayed_half :
    ∃ args request,
      (compileUnit treeInvoker "scratch.json" (weightedUnit (.ofDecimal false 5 (-1))) none).args?
        = some args
      ∧ Recorded.ofText? request.documentText = some args.document
      ∧ RecordedRun treeInvoker "scratch.json" (weightedUnit (.ofDecimal false 5 (-1))) args
        request := by
  obtain ⟨args, request, recorded, run⟩ :=
    compileUnit_replayed treeInvoker "scratch.json" (weightedUnit (.ofDecimal false 5 (-1))) none
      (wasParsed_weightedUnit _) (success_weightedUnit _)
  have steady := steady_weightedUnit (.ofDecimal false 5 (-1)) (by decide +kernel)
  exact ⟨args, request, recorded, run.read_same_iff.2 steady, run⟩

/-- **What a worker finds is not always read as the request that is recorded.** The shortest digits
of a double may be read as the double next to it. -/
theorem not_always_replayed :
    ¬ ∀ (i : Invoker) (path : String) (u : BuildUnit) (target? : Option String),
      u.document.WasParsed → (compileUnit i path u target?).success = true →
      ∀ args request, (compileUnit i path u target?).args? = some args →
        (unitTask i path u).found? Dict.empty = some request →
        Recorded.ofText? request.documentText = some args.document := by
  intro always
  let u := weightedUnit (.ofDecimal false 8770558466747388 (-25))
  have success := success_weightedUnit (.ofDecimal false 8770558466747388 (-25))
  have parsed : u.document.WasParsed := wasParsed_weightedUnit _
  obtain ⟨written, recorded⟩ := args?_of_success success
  have run := recordedRun written parsed
  have read := always treeInvoker "scratch.json" u none parsed success _ _ recorded (run.found _)
  have steady := (run.read_same_iff.1 read).sources "A.sol" _ rfl "weight" _ rfl
  have drifts : ¬ (Json.Number.real (.ofDecimal false 8770558466747388 (-25))).Steady := by
    decide +kernel
  exact drifts steady

end FuzzBundle
