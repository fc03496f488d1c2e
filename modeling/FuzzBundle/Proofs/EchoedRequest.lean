/-
  FuzzBundle.Proofs.EchoedRequest — a worker that leaves the request where the answer belongs.

  Requests and answers go through one file, and both have the field `sources`. A request that is
  still in the file when a worker has ended well is therefore read as an answer: its other fields
  are unknown there and are skipped, and an answer need not have messages or contracts
  (`read?_text`). It is refused only for what its source entries say beyond their texts: each of
  them must pass as an entry of an answer (`SourceEntry.PassesAsOutput`).

  Main statements: `SourceEntry.isSome_decode_readBack_iff` (which entries are read as entries of an
  answer), `InputDocument.read?_text` (what a request is read as), `Task.run_idle` (a run with an
  idle worker is the judgement of the request).
-/
import FuzzBundle.Proofs.DocumentReading
import FuzzBundle.Proofs.TaskRuns

namespace FuzzBundle

/-! ## §1. Reading fields -/

/-- An optional field is read if it is missing, or null, or read as what it should be. -/
theorem isSome_optional_iff [Recorded α] (s : Slots) (name : String) :
    (s.optional name : Option (Option α)).isSome = true
      ↔ ∀ w, s.get? name = some w → w = .null ∨ (decode w : Option α).isSome = true := by
  unfold Slots.optional
  split
  · next missing => rw [missing]; exact iff_of_true rfl nofun
  · next null => rw [null]; exact iff_of_true rfl fun w h => .inl (Option.some.inj h).symm
  · next w other given =>
    rw [given, Option.isSome_map]
    constructor
    · intro h v same
      cases same
      exact .inr h
    · intro h
      rcases h w rfl with null | read
      · subst null; exact absurd rfl other
      · exact read

/-! ## §2. Source entries that pass as entries of an answer -/

/-- Whether null is written for a value: it is null, or a double that is not finite. -/
def Json.blank : Json → Bool
  | .null => true
  | .number n => n.blank
  | _ => false

/-- What a source entry of a request says beyond its text is what an entry of an answer may say, as
far as an answer knows the key: a number of 64 bits as `id`, a text as `source`, and trees whose
numbers can be read. Null may stand for each of them. -/
structure SourceEntry.PassesAsOutput (e : SourceEntry) : Prop where
  id : ∀ v, e.extra.get? "id" = some v →
    v.blank = true ∨ ∃ n, v = .number (.natural n) ∧ n ≤ Json.Literal.significandMax
  tree : ∀ v, e.extra.get? "ast" = some v → v.Legible
  legacyTree : ∀ v, e.extra.get? "legacyAST" = some v → v.Legible
  source : ∀ v, e.extra.get? "source" = some v → v.blank = true ∨ ∃ s, v = .string s

namespace Json

theorem readBack_eq_null_iff {value : Json} :
    value.written.readBack = .null ↔ value.blank = true := by
  cases value with
  | null => exact iff_of_true rfl rfl
  | bool b => exact iff_of_false nofun nofun
  | string s => exact iff_of_false nofun nofun
  | array items => exact iff_of_false nofun nofun
  | object fields => exact iff_of_false nofun nofun
  | number n =>
    rw [written, Written.readBack, blank]
    cases none : n.blank with
    | true => exact iff_of_true (n.readBack_of_blank none) rfl
    | false =>
      refine iff_of_false ?_ nofun
      rcases n.readBack_of_not_blank none with ⟨x, read⟩ | read
      · rw [read]; exact nofun
      · rw [read]; exact nofun

/-- Only a number is read back as a number. -/
theorem eq_number_of_readBack {value : Json} {x : Number}
    (h : value.written.readBack = .number x) : ∃ n, value = .number n ∧ n.readBack = .number x := by
  cases value with
  | number n => exact ⟨n, rfl, h⟩
  | _ => cases h

/-- Only a text is read back as a text. -/
theorem eq_string_of_readBack {value : Json} {s : String}
    (h : value.written.readBack = .string s) : value = .string s := by
  cases value with
  | string t => cases h; rfl
  | number n =>
    have read : n.readBack = .string s := h
    cases none : n.blank with
    | true => rw [n.readBack_of_blank none] at read; cases read
    | false =>
      rcases n.readBack_of_not_blank none with ⟨x, other⟩ | other
      · rw [other] at read; cases read
      · rw [other] at read; cases read
  | _ => cases h

theorem isSome_decodeNat_readBack (value : Json) :
    (decode value.written.readBack : Option Nat).isSome = true
      ↔ ∃ n, value = .number (.natural n) ∧ n ≤ Literal.significandMax := by
  have natural (w : Written) :
      (decode w : Option Nat).isSome = true ↔ ∃ n, w = .number (.natural n) := by
    constructor
    · intro h
      cases w with
      | number x =>
        cases x with
        | natural n => exact ⟨n, rfl⟩
        | _ => cases h
      | _ => cases h
    · intro h
      obtain ⟨n, rfl⟩ := h
      rfl
  rw [natural]
  constructor
  · intro h
    obtain ⟨n, read⟩ := h
    obtain ⟨x, rfl, number⟩ := eq_number_of_readBack read
    obtain ⟨rfl, fits⟩ := Number.readBack_eq_natural_iff.1 number
    exact ⟨n, rfl, fits⟩
  · intro h
    obtain ⟨n, rfl, fits⟩ := h
    exact ⟨n, Number.readBack_eq_natural_iff.2 ⟨rfl, fits⟩⟩

theorem isSome_decodeString_readBack (value : Json) :
    (decode value.written.readBack : Option String).isSome = true ↔ ∃ s, value = .string s := by
  constructor
  · intro h
    cases read : value.written.readBack with
    | string s => exact ⟨s, eq_string_of_readBack read⟩
    | _ => rw [read] at h; cases h
  · intro h
    obtain ⟨s, rfl⟩ := h
    rfl

end Json

/-! ## §3. Source entries read back -/

namespace SourceEntry

variable (e : SourceEntry)

/-- The fields of a source entry as they are read back. -/
def fieldsBack : List (String × Written) :=
  writtenIfAny "content" e.content? ++ (e.extra.map fun _ v => v.written.readBack).toList

/-- They are found by name. -/
def slotsBack : Slots := ⟨e.fieldsBack, false⟩

theorem readBack_encode : (encode e : Written).readBack = .object e.fieldsBack := by
  have each : (writtenEach e.extra).map (fun field => (field.1, field.2.readBack))
      = (e.extra.map fun _ v => v.written.readBack).toList := List.map_map
  have content : (writtenIfAny "content" e.content?).map (fun field => (field.1, field.2.readBack))
      = writtenIfAny "content" e.content? := by
    cases e.content? <;> rfl
  show Written.object (Written.readBackFields _) = _
  rw [Written.readBackFields_eq_map, List.map_append, content, each, fieldsBack]

/-- No field beyond the text is repeated. -/
theorem slots?_readBack {names : List String} (h : "content" ∉ names) :
    (Written.object e.fieldsBack).slots? names = some e.slotsBack := by
  refine if_pos (List.all_eq_true.2 fun name member => decide_eq_true ?_)
  have other : "content" ≠ name := fun same => h (same ▸ member)
  have content : (writtenIfAny "content" e.content?).filter (·.1 == name) = [] := by
    cases e.content? with
    | none => rfl
    | some text => simp [writtenIfAny, other]
  rw [fieldsBack, List.filter_append, content, List.nil_append]
  exact Entries.length_filter_key (Dict.ascending _) name

theorem get?_slotsBack {name : String} (other : "content" ≠ name) :
    e.slotsBack.get? name = (e.extra.get? name).map fun v => v.written.readBack := by
  rw [← Dict.get?_map (fun _ v => Written.readBack v.written) e.extra name, Slots.get?, slotsBack,
    fieldsBack]
  cases e.content? with
  | none => rfl
  | some text =>
    show Entries.get? (("content", _) :: _) name = _
    rw [Entries.get?_cons, if_neg other]
    rfl

/-- An optional field of an entry that was read back. -/
theorem isSome_optional_slotsBack [Recorded α] (name : String) (other : "content" ≠ name) :
    (e.slotsBack.optional name : Option (Option α)).isSome = true
      ↔ ∀ v, e.extra.get? name = some v →
        v.blank = true ∨ (decode v.written.readBack : Option α).isSome = true := by
  rw [isSome_optional_iff, e.get?_slotsBack other]
  constructor
  · intro h v got
    rw [← Json.readBack_eq_null_iff]
    exact h _ (by rw [got]; rfl)
  · intro h w got
    obtain ⟨v, found, rfl⟩ := Option.map_eq_some_iff.1 got
    rw [Json.readBack_eq_null_iff]
    exact h v found

/-- A tree is read back if all its numbers are, and null stands only for what has none. -/
theorem isSome_optional_tree (name : String) (other : "content" ≠ name) :
    (e.slotsBack.optional name : Option (Option Json)).isSome = true
      ↔ ∀ v, e.extra.get? name = some v → v.Legible := by
  rw [isSome_optional_slotsBack e name other]
  refine forall_congr' fun v => imp_congr_right fun _ => ?_
  show _ ∨ v.written.readBack.value?.isSome = true ↔ _
  rw [Json.isSome_value?_readBack]
  -- a value for which null stands has no number that is refused
  refine or_iff_right_of_imp fun blank => ?_
  rw [← Json.isSome_value?_readBack, Json.readBack_eq_null_iff.2 blank]
  rfl

/-- The entries of a request that are read as entries of an answer are those that pass. -/
theorem isSome_decode_readBack_iff :
    (decode (encode e : Written).readBack : Option SourceOutput).isSome = true
      ↔ e.PassesAsOutput := by
  have id := e.isSome_optional_slotsBack (α := Nat) "id" (by decide)
  have tree := e.isSome_optional_tree "ast" (by decide)
  have legacyTree := e.isSome_optional_tree "legacyAST" (by decide)
  have source := e.isSome_optional_slotsBack (α := String) "source" (by decide)
  simp only [Json.isSome_decodeNat_readBack] at id
  simp only [Json.isSome_decodeString_readBack] at source
  -- a record is read if every field of it is
  have fields : (decode (Written.object e.fieldsBack) : Option SourceOutput).isSome = true ↔
      (e.slotsBack.optional "id" : Option (Option Nat)).isSome = true
      ∧ (e.slotsBack.optional "ast" : Option (Option Json)).isSome = true
      ∧ (e.slotsBack.optional "legacyAST" : Option (Option Json)).isSome = true
      ∧ (e.slotsBack.optional "source" : Option (Option String)).isSome = true := by
    show ((Written.object e.fieldsBack).slots? _ >>= _).isSome = true ↔ _
    rw [e.slots?_readBack (by decide), Option.bind_eq_bind, Option.bind_some]
    cases (e.slotsBack.optional "id" : Option (Option Nat)) <;>
      cases (e.slotsBack.optional "ast" : Option (Option Json)) <;>
      cases (e.slotsBack.optional "legacyAST" : Option (Option Json)) <;>
      cases (e.slotsBack.optional "source" : Option (Option String)) <;>
      simp
  rw [readBack_encode, fields, id, tree, legacyTree, source]
  exact ⟨fun h => ⟨h.1, h.2.1, h.2.2.1, h.2.2.2⟩, fun h => ⟨h.id, h.tree, h.legacyTree, h.source⟩⟩

end SourceEntry

/-! ## §4. Requests read as answers -/

namespace InputDocument

variable (d : InputDocument)

/-- The source entries of a request as they are read back. -/
def sourcesBack : List (String × Written) :=
  d.sources.toList.map fun entry => (entry.1, (encode entry.2 : Written).readBack)

/-- A request is read as an answer that has its source entries, no messages and no contracts. -/
theorem read?_text :
    CompilerOutput.read? d.text
      = (decodeFields d.sourcesBack).map fun entries => ⟨[], Dict.ofList entries, Dict.empty⟩ := by
  have sources : (encode d.sources : Written).readBack = .object d.sourcesBack := by
    show Written.object (Written.readBackFields _) = _
    rw [Written.readBackFields_eq_map, List.map_map]
    rfl
  have back : (encode d : Written).readBack = .object
      [("language", .string d.language), ("sources", .object d.sourcesBack),
        ("settings", (encode d.settings : Written).readBack)] := by
    rw [← sources]
    rfl
  rw [CompilerOutput.read?, text, Written.read_compact, Option.bind_some, back]
  -- the fields `language` and `settings` are unknown to an answer
  show ((decodeFields d.sourcesBack).map Dict.ofList >>= _) = _
  cases (decodeFields d.sourcesBack : Option (List (String × SourceOutput))) <;> rfl

theorem isSome_decode_sourcesBack :
    (decodeFields d.sourcesBack : Option (List (String × SourceOutput))).isSome = true
      ↔ ∀ entry ∈ d.sources.toList, entry.2.PassesAsOutput := by
  rw [isSome_decodeFields_iff, sourcesBack, List.forall_mem_map]
  exact forall_congr' fun entry => imp_congr_right fun _ => entry.2.isSome_decode_readBack_iff

end InputDocument

/-- Judging a request as an answer fails exactly when some source entry does not pass. -/
theorem CompileOutcome.judge_text (wording : Wording) (d : InputDocument)
    (contents : List (String × String)) :
    (∃ f, CompileOutcome.judge wording (.text d.text) contents = .failure f)
      ↔ ∃ entry ∈ d.sources.toList, ¬ entry.2.PassesAsOutput := by
  have refused : (∃ entry ∈ d.sources.toList, ¬ entry.2.PassesAsOutput)
      ↔ (decodeFields d.sourcesBack : Option (List (String × SourceOutput))) = none := by
    rw [← Option.not_isSome_iff_eq_none, d.isSome_decode_sourcesBack]
    simp
  have read : CompilerOutput.read? (Content.text d.text).documentText = _ := d.read?_text
  rw [refused, judge, read]
  cases (decodeFields d.sourcesBack : Option (List (String × SourceOutput))) with
  | none => exact iff_of_true ⟨_, rfl⟩ rfl
  | some entries => exact iff_of_false nofun nofun

/-! ## §5. Workers that do nothing -/

namespace Task

/-- The worker of a task ends well and leaves in the scratch file what it found there. -/
structure Idle (t : Task) : Prop where
  prepared : t.writing = .done
  ran : ∃ r, t.invoker.worker (t.invoker.argumentsFor t.version t.path)
    (some (.text t.forced.text)) = .ran r ∧ r.left = some (.text t.forced.text)
      ∧ r.status.success = true

/-- What is judged after a run with an idle worker is the request itself. -/
theorem run_idle {t : Task} (h : t.Idle) (files : ScratchFiles) :
    (t.run files).2 = .judge t.invoker.wording t.request t.forced.sourceContents := by
  obtain ⟨r, ran, left, well⟩ := h.ran
  have answered : t.answer = .ran r := ran
  have fine : r.failure? = none := if_pos well
  rw [t.snd_run_of_done h.prepared, verdict, answered]
  simp only [fine, left]
  rfl

/-- A compilation whose worker does nothing fails exactly when some source entry of the request does
not pass as an entry of an answer. In every other case it succeeds. -/
theorem failure_iff_of_idle (t : Task) (files : ScratchFiles) (h : t.Idle) :
    (∃ f, (t.run files).2 = .failure f)
      ↔ ∃ path entry, t.document.sources.get? path = some entry ∧ ¬ entry.PassesAsOutput := by
  rw [run_idle h, request, CompileOutcome.judge_text]
  constructor
  · intro refused
    obtain ⟨⟨path, entry⟩, member, fails⟩ := refused
    exact ⟨path, entry, Dict.mem_toList_iff.1 member, fails⟩
  · intro refused
    obtain ⟨path, entry, found, fails⟩ := refused
    exact ⟨(path, entry), Dict.mem_toList_iff.2 found, fails⟩

/-- The compilation of one file by a worker that does nothing. -/
def idle (entry : SourceEntry) : Task where
  invoker :=
    { program := "worker"
      arguments := []
      stackSize := 67108864
      keepScratch := false
      worker := fun _ found => .ran ⟨found, .text "", .code 0⟩ }
  path := "scratch.json"
  version := "0.8.19"
  document := .ofSources (Dict.empty.insert "A.sol" entry) .empty

theorem idle_idle (entry : SourceEntry) : (idle entry).Idle := ⟨rfl, _, rfl, rfl, rfl⟩

/-- An entry with a text where an answer has a number. -/
theorem failure_of_idle_misnumbered :
    (idle ⟨some "contract A \x7b\x7d", Dict.empty.insert "id" (.string "x")⟩).Idle
      ∧ ∃ f, ((idle ⟨some "contract A \x7b\x7d", Dict.empty.insert "id" (.string "x")⟩).run
          Dict.empty).2 = .failure f := by
  refine ⟨idle_idle _, (failure_iff_of_idle _ _ (idle_idle _)).2 ⟨"A.sol", _, rfl, ?_⟩⟩
  intro passes
  rcases passes.id (.string "x") rfl with null | ⟨n, number, -⟩
  · cases null
  · cases number

/-- A request that says nothing but its texts is taken as the answer to itself. -/
theorem idle_not_always_failure :
    ¬ ∀ (t : Task) (files : ScratchFiles), t.Idle → ∃ f, (t.run files).2 = .failure f := by
  intro always
  have failed := always (idle (.ofContent "contract A \x7b\x7d")) Dict.empty (idle_idle _)
  rw [run_idle (idle_idle _), request, CompileOutcome.judge_text] at failed
  obtain ⟨⟨path, entry⟩, member, fails⟩ := failed
  have only : (path, entry) = ("A.sol", .ofContent "contract A \x7b\x7d") :=
    List.mem_singleton.1 member
  cases only
  exact fails ⟨nofun, nofun, nofun, nofun⟩

end Task

end FuzzBundle
