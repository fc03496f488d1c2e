/-
  FuzzBundle.Proofs.WorkerRuns — what a worker leaves behind.

  A worker finds a scratch file, or none, and has several things to get right: its thread is
  started, the version is one, its release can be had, the file can be read, it is one document with
  a value, the compiler ends well, and its output is written. Everything before the compiler is told
  by the machine, the version text and the bytes of the file (`Releases.Ready`). Until a worker is
  ready it changes nothing (`Releases.run_of_not_ready`); once it is, the compiler is run on the
  value of the document, and only its success touches the file (`Releases.run_of_ready`,
  `Releases.run_of_produces`). From then on it is the writing that decides: when it breaks off, the
  file holds a part of the output, and the worker fails.

  Main statement: `Releases.run_all_or_nothing`.
-/
import FuzzBundle.Proofs.TrailingData

namespace FuzzBundle

namespace Releases

variable (r : Releases) (version path : String) (stackSize : Nat) (scratch : Option (List UInt8))
  (log : List (Version × Json))

/-! ## §1. Before the compiler is run -/

/-- A worker is ready to run a version on a request: its thread can be started, the version is the
one asked for, its release can be had, and the scratch file can be read and is one document with the
request as its value. -/
structure Ready (v : Version) (request : Json) : Prop where
  threaded : r.noThread? stackSize = none
  parsed : Version.parse? version = some v
  available : r.availability v = .atHand
  readable : r.readable path = true
  asked : ∃ bytes w, scratch = some bytes ∧ Document bytes w ∧ w.value? = some request

/-- A worker produces an output: it is ready to run a compiler, and that ends well with the
output. -/
def Produces (output : Content) : Prop :=
  ∃ v request, r.Ready version path stackSize scratch v request
    ∧ (r.compile v request).status.success = true ∧ (r.compile v request).output = output

theorem select_eq_ok_iff {v : Version} :
    r.select version = .ok v ↔ Version.parse? version = some v ∧ r.availability v = .atHand := by
  unfold select
  cases Version.parse? version with
  | none => simp
  | some v' =>
    simp only [Option.some.injEq]
    cases here : r.availability v' with
    | atHand =>
      rw [Except.ok.injEq]
      exact ⟨fun same => ⟨same, same ▸ here⟩, And.left⟩
    | unseen reason | missing reason =>
      refine iff_of_false nofun ?_
      rintro ⟨rfl, there⟩
      rw [here] at there
      cases there

/-- What a worker reads is the value of the one document in a file that it can read. -/
theorem request_eq_ok_iff {request : Json} :
    r.request path ⟨scratch.map .ofBytes, log⟩ = .ok request
      ↔ r.readable path = true
        ∧ ∃ bytes w, scratch = some bytes ∧ Document bytes w ∧ w.value? = some request := by
  unfold Releases.request
  by_cases readable : r.readable path = true
  · rw [if_pos readable]
    cases scratch with
    | none => simp [readRequest]
    | some bytes => simp [readRequest_eq_ok_iff, readable]
  · rw [if_neg readable]
    constructor
    · intro found
      cases found
    · intro h
      exact absurd h.1 readable

/-- A worker is ready when it has come to the compiler. -/
theorem ready_iff {v : Version} {request : Json} :
    r.Ready version path stackSize scratch v request
      ↔ r.noThread? stackSize = none ∧ r.select version = .ok v
        ∧ r.request path ⟨scratch.map .ofBytes, log⟩ = .ok request := by
  rw [select_eq_ok_iff, request_eq_ok_iff]
  constructor
  · intro h
    exact ⟨h.threaded, ⟨h.parsed, h.available⟩, h.readable, h.asked⟩
  · rintro ⟨threaded, ⟨parsed, available⟩, readable, asked⟩
    exact ⟨threaded, parsed, available, readable, asked⟩

/-! ## §2. The steps of a worker -/

theorem overwrite_eq_ok_iff (output : Content) (d : Desk) :
    (r.overwrite path output d).1 = .ok () ↔ r.writing path output = .done := by
  rw [← FileWrite.failure?_eq_none_iff]
  unfold overwrite
  cases (r.writing path output).failure? <;> simp

section Steps

variable {r version path stackSize scratch}

/-- A worker that is not ready fails and changes nothing. -/
theorem run_of_not_ready (h : ∀ v request, ¬ r.Ready version path stackSize scratch v request) :
    ∃ e, r.run version path stackSize ⟨scratch.map .ofBytes, log⟩
      = (.error e, ⟨scratch.map .ofBytes, log⟩) := by
  unfold run work
  cases threaded : r.noThread? stackSize with
  | some reason => exact ⟨_, rfl⟩
  | none =>
    cases selected : r.select version with
    | error e => exact ⟨e, rfl⟩
    | ok v =>
      cases asked : r.request path ⟨scratch.map .ofBytes, log⟩ with
      | error e => exact ⟨e, rfl⟩
      | ok request =>
        exact absurd ((r.ready_iff version path stackSize scratch log).2
          ⟨threaded, selected, asked⟩) (h v request)

/-- A worker that is ready runs the compiler once, and writes its output over the scratch file if it
ended well. -/
theorem run_of_ready {v : Version} {request : Json}
    (h : r.Ready version path stackSize scratch v request) :
    r.run version path stackSize ⟨scratch.map .ofBytes, log⟩
      = if (r.compile v request).status.success then
          r.overwrite path (r.compile v request).output
            ⟨scratch.map .ofBytes, log ++ [(v, request)]⟩
        else
          (.error (.failed v (r.compile v request).complaint),
            ⟨scratch.map .ofBytes, log ++ [(v, request)]⟩) := by
  obtain ⟨threaded, selected, asked⟩ := (r.ready_iff version path stackSize scratch log).1 h
  simp only [run, work, threaded, selected, asked, compileOn]
  rfl

theorem requests_run_of_ready {v : Version} {request : Json}
    (h : r.Ready version path stackSize scratch v request) :
    (r.run version path stackSize ⟨scratch.map .ofBytes, log⟩).2.requests
      = log ++ [(v, request)] := by
  rw [run_of_ready log h]
  split <;> rfl

theorem requests_run_of_not_ready
    (h : ∀ v request, ¬ r.Ready version path stackSize scratch v request) :
    (r.run version path stackSize ⟨scratch.map .ofBytes, log⟩).2.requests = log := by
  obtain ⟨e, unchanged⟩ := run_of_not_ready log h
  rw [unchanged]

/-- When there is an output, what comes of the run is what comes of writing it. -/
theorem run_of_produces {output : Content}
    (h : r.Produces version path stackSize scratch output) :
    (r.run version path stackSize ⟨scratch.map .ofBytes, log⟩).2.scratch
        = (r.writing path output).left output (scratch.map .ofBytes)
      ∧ ((r.run version path stackSize ⟨scratch.map .ofBytes, log⟩).1 = .ok ()
        ↔ r.writing path output = .done)
      ∧ ∀ reason, (r.writing path output).failure? = some reason →
        (r.run version path stackSize ⟨scratch.map .ofBytes, log⟩).1
          = .error (.unwritable path reason) := by
  obtain ⟨v, request, ready, success, rfl⟩ := h
  rw [run_of_ready log ready, if_pos success]
  refine ⟨rfl, r.overwrite_eq_ok_iff .., fun reason failed => ?_⟩
  rw [overwrite, failed]

/-- When there is none, the run fails and the scratch file stays as it is. -/
theorem run_of_not_produces (h : ∀ output, ¬ r.Produces version path stackSize scratch output) :
    (r.run version path stackSize ⟨scratch.map .ofBytes, log⟩).2.scratch = scratch.map .ofBytes
      ∧ ∃ e, (r.run version path stackSize ⟨scratch.map .ofBytes, log⟩).1 = .error e := by
  by_cases ready : ∃ v request, r.Ready version path stackSize scratch v request
  · obtain ⟨v, request, ready⟩ := ready
    have failed : ¬ (r.compile v request).status.success = true :=
      fun success => h _ ⟨v, request, ready, success, rfl⟩
    rw [run_of_ready log ready, if_neg failed]
    exact ⟨rfl, _, rfl⟩
  · obtain ⟨e, unchanged⟩ := run_of_not_ready log fun v request h => ready ⟨v, request, h⟩
    rw [unchanged]
    exact ⟨rfl, e, rfl⟩

end Steps

/-! ## §3. All or nothing -/

/-- What a worker may leave of a scratch file, and how it ends then: it fails and has changed no
byte of the file, or it succeeds and the file is the output of the compiler, or the writing of the
output has broken off, and then it fails and the file is as much of the output as was written. -/
inductive Leaves : Except ReleaseError Unit → Option Content → Prop where
  | asFound {e : ReleaseError} {left : Option Content} (same : left.map Content.stored = scratch) :
    Leaves (.error e) left
  | output {output : Content} (made : r.Produces version path stackSize scratch output) :
    Leaves (.ok ()) (some output)
  | part {output : Content} {reason : String} {written : Nat}
    (made : r.Produces version path stackSize scratch output)
    (broken : r.writing path output = .brokenOff reason written) :
    Leaves (.error (.unwritable path reason)) (some (output.upTo written))

theorem leaves_run :
    r.Leaves version path stackSize scratch
      (r.run version path stackSize ⟨scratch.map .ofBytes, log⟩).1
      (r.run version path stackSize ⟨scratch.map .ofBytes, log⟩).2.scratch := by
  have kept : (scratch.map Content.ofBytes).map Content.stored = scratch := by
    cases scratch <;> simp
  by_cases produces : ∃ output, r.Produces version path stackSize scratch output
  · obtain ⟨output, made⟩ := produces
    obtain ⟨left, succeeds, fails⟩ := run_of_produces log made
    rw [left]
    cases write : r.writing path output with
    | done =>
      rw [succeeds.2 write]
      exact .output made
    | refused reason =>
      rw [fails reason (by rw [write]; rfl)]
      exact .asFound kept
    | brokenOff reason written =>
      rw [fails reason (by rw [write]; rfl)]
      exact .part made write
  · obtain ⟨left, e, failed⟩ := run_of_not_produces log (not_exists.1 produces)
    rw [left, failed]
    exact .asFound kept

theorem run_eq_ok_iff :
    (r.run version path stackSize ⟨scratch.map .ofBytes, log⟩).1 = .ok ()
      ↔ ∃ output, r.Produces version path stackSize scratch output
        ∧ r.writing path output = .done := by
  constructor
  · intro ok
    by_cases produces : ∃ output, r.Produces version path stackSize scratch output
    · obtain ⟨output, made⟩ := produces
      exact ⟨output, made, (run_of_produces log made).2.1.1 ok⟩
    · obtain ⟨-, e, failed⟩ := run_of_not_produces log (not_exists.1 produces)
      rw [failed] at ok
      cases ok
  · rintro ⟨output, made, write⟩
    exact (run_of_produces log made).2.1.2 write

/-- **A worker leaves the scratch file as it found it, or as the compiler wrote it.** It fails in
the first case and succeeds in the second; there is a third case only if the writing of the output
breaks off. It succeeds if it was ready, the compiler ended well and the output was written. The
compiler is run on what the worker is ready for, and not at all if it is not ready. -/
theorem run_all_or_nothing {result : Except ReleaseError Unit} {left : Desk}
    (ran : r.run version path stackSize ⟨scratch.map .ofBytes, log⟩ = (result, left)) :
    r.Leaves version path stackSize scratch result left.scratch
      ∧ (result = .ok () ↔ ∃ output, r.Produces version path stackSize scratch output
        ∧ r.writing path output = .done)
      ∧ (∀ v request, r.Ready version path stackSize scratch v request →
        left.requests = log ++ [(v, request)])
      ∧ ((∀ v request, ¬ r.Ready version path stackSize scratch v request) →
        left.requests = log) := by
  have leaves := r.leaves_run version path stackSize scratch log
  have succeeds := r.run_eq_ok_iff version path stackSize scratch log
  rw [ran] at leaves succeeds
  refine ⟨leaves, succeeds, fun v request ready => ?_, fun none => ?_⟩
  · have asked := requests_run_of_ready log ready
    rwa [ran] at asked
  · have idle := requests_run_of_not_ready log none
    rwa [ran] at idle

/-- Every release is at hand, its compiler answers every request with an empty object, and what
comes of writing that is given. -/
def obliging (write : FileWrite) : Releases where
  availability _ := .atHand
  compile _ _ := ⟨.text "\x7b\x7d", "", .code 0⟩
  writing _ _ := write

theorem ready_obliging (write : FileWrite) :
    (obliging write).Ready "v0.8.19" "in.json" 8 (some (encoded " \x7b\x7d")) ⟨0, 8, 19, []⟩
      (.object []) := by
  have document : Document (encoded " \x7b\x7d") (.object []) :=
    ⟨_, holds_encoded _,
      .padded ⟨[' '], rfl, rfl⟩ (.emptyObject Grammar.Blank.nil) Grammar.Blank.nil⟩
  exact ⟨rfl, by decide +kernel, rfl, rfl, _, _, rfl, document, rfl⟩

theorem produces_obliging (write : FileWrite) :
    (obliging write).Produces "v0.8.19" "in.json" 8 (some (encoded " \x7b\x7d"))
      (.text "\x7b\x7d") := ⟨_, _, ready_obliging write, rfl, rfl⟩

theorem run_all_or_nothing_obliging :
    ((obliging .done).run "v0.8.19" "in.json" 8
        ⟨(some (encoded " \x7b\x7d")).map .ofBytes, []⟩).1 = .ok ()
      ∧ ((obliging .done).run "v0.8.19" "in.json" 8
          ⟨(some (encoded " \x7b\x7d")).map .ofBytes, []⟩).2.requests
        = [(⟨0, 8, 19, []⟩, .object [])] := by
  obtain ⟨-, succeeds, asked, -⟩ := run_all_or_nothing (obliging .done) "v0.8.19" "in.json" 8
    (some (encoded " \x7b\x7d")) [] (Prod.eta _).symm
  exact ⟨succeeds.2 ⟨_, produces_obliging .done, rfl⟩, asked _ _ (ready_obliging .done)⟩

/-- A number beyond all doubles is a document, and has no value. -/
theorem document_beyond : Document (encoded "1e400") .invalid := by
  have spelled : Written.SpellsLiteral ['1', 'e', '4', '0', '0']
      ⟨false, [1], none, some (false, [4, 0, 0])⟩ := by
    have one : Written.IsDigits ['1'] := ⟨nofun, rfl⟩
    exact .plain (.number one nofun .none (.some (.inl rfl) .none ⟨nofun, rfl⟩))
  have beyond : (Json.Literal.number? ⟨false, [1], none, some (false, [4, 0, 0])⟩) = none := by
    decide +kernel
  have invalid : Written.ofLiteral ⟨false, [1], none, some (false, [4, 0, 0])⟩ = .invalid := by
    rw [Written.ofLiteral, beyond]
  have number := Grammar.Spells.number spelled
  rw [invalid] at number
  exact ⟨_, holds_encoded _, .padded Grammar.Blank.nil number Grammar.Blank.nil⟩

/-- A document need not have a value. Then the compiler is not run, and the worker fails although
nothing else is wrong. And a worker that fails need not leave the file as it found it: on a full
disk the output takes the place of the request, and nothing can be written of it. -/
theorem not_always_all_or_nothing :
    (¬ ∀ (r : Releases) (version path : String) (stackSize : Nat) (v : Version)
        (bytes : List UInt8) (w : Written),
      r.noThread? stackSize = none → Version.parse? version = some v →
      r.availability v = .atHand → r.readable path = true → Document bytes w →
      (∀ request, (r.compile v request).status.success = true) →
      (∀ output, r.writing path output = .done) →
      (r.run version path stackSize ⟨some (.ofBytes bytes), []⟩).1 = .ok ())
    ∧ ¬ ∀ (r : Releases) (version path : String) (stackSize : Nat) (bytes : List UInt8)
        (e : ReleaseError),
      (r.run version path stackSize ⟨some (.ofBytes bytes), []⟩).1 = .error e →
      (r.run version path stackSize ⟨some (.ofBytes bytes), []⟩).2.scratch
        = some (.ofBytes bytes) := by
  constructor
  · intro always
    have ok := always (obliging .done) "0.8.19" "in.json" 8 ⟨0, 8, 19, []⟩ (encoded "1e400")
      .invalid rfl (by decide +kernel) rfl rfl document_beyond (fun _ => rfl) fun _ => rfl
    have none : ∀ v request, ¬ (obliging .done).Ready "0.8.19" "in.json" 8
        (some (encoded "1e400")) v request := by
      rintro v request ⟨-, -, -, -, bytes, w, eq, document, value⟩
      cases eq
      rw [document.unique document_beyond] at value
      cases value
    obtain ⟨e, failed⟩ := run_of_not_ready [] none
    rw [Option.map_some] at failed
    rw [failed] at ok
    cases ok
  · intro always
    obtain ⟨left, -, fails⟩ := run_of_produces [] (produces_obliging (.brokenOff "no space" 0))
    have same := always (obliging (.brokenOff "no space" 0)) "v0.8.19" "in.json" 8
      (encoded " \x7b\x7d") _ (fails "no space" rfl)
    rw [Option.map_some] at left
    rw [left] at same
    -- nothing of the output is left, and the request was not empty
    have empty := ofBytes_inj (Option.some.inj same)
    cases empty

end Releases

end FuzzBundle
