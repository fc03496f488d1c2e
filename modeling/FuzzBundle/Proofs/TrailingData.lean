/-
  FuzzBundle.Proofs.TrailingData — what may follow a document in a file.

  Three readers take a document from a file. Those of outputs and of requests want the whole file
  to be one document with nothing but white space around it. The reader of fragments takes the
  document that the file begins with and never looks at what follows, so a fragment with anything
  behind it is still a fragment (`Fragment.unitOf_eq_ok_iff`).

  Main statement: `Document.accepted_whole_iff`.
-/
import FuzzBundle.Compiler.Output
import FuzzBundle.Compiler.Release
import FuzzBundle.Project.Fragment
import FuzzBundle.Proofs.ScannedDocuments
import Mathlib.Data.List.Forall2

namespace FuzzBundle

open Grammar Written

/-! ## §1. White space in bytes -/

/-- Whether a byte is white space in a document. -/
def isWhite (byte : UInt8) : Bool := byte == 0x20 || byte == 0x09 || byte == 0x0a || byte == 0x0d

/-- Every such byte is a character of its own. -/
theorem exists_blank_of_isWhite {byte : UInt8} (white : isWhite byte = true) :
    ∃ c, String.utf8EncodeChar c = [byte] ∧ isBlank c = true := by
  simp only [isWhite, Bool.or_eq_true, beq_iff_eq] at white
  rcases white with ((rfl | rfl) | rfl) | rfl
  · exact ⟨' ', rfl, rfl⟩
  · exact ⟨'\t', rfl, rfl⟩
  · exact ⟨'\n', rfl, rfl⟩
  · exact ⟨'\r', rfl, rfl⟩

theorem isBlank_iff_isWhite {c : Char} :
    isBlank c = true ↔ (String.utf8EncodeChar c).all isWhite = true := by
  constructor
  · intro blank
    simp only [isBlank, Bool.or_eq_true, beq_iff_eq] at blank
    rcases blank with ((rfl | rfl) | rfl) | rfl <;> rfl
  · intro white
    obtain ⟨byte, more, eq⟩ := utf8EncodeChar_eq_cons c
    rw [eq, List.all_cons, Bool.and_eq_true] at white
    obtain ⟨d, single, blank⟩ := exists_blank_of_isWhite white.1
    -- the first byte is a character already, so it is this one
    have begins : String.utf8EncodeChar d <+: String.utf8EncodeChar c := by
      rw [single, eq]
      exact ⟨more, rfl⟩
    rwa [character_unique List.prefix_rfl begins]

theorem blank_cons_iff {symbol : Symbol} {symbols : List Symbol} :
    Blank (symbol :: symbols)
      ↔ (∃ c, symbol = .character c ∧ isBlank c = true) ∧ Blank symbols := by
  constructor
  · rintro ⟨cs, eq, blank⟩
    cases cs with
    | nil => cases eq
    | cons c cs =>
      rw [List.all_cons, Bool.and_eq_true] at blank
      obtain ⟨rfl, rfl⟩ := List.cons.inj eq
      exact ⟨⟨c, rfl, blank.1⟩, cs, rfl, blank.2⟩
  · rintro ⟨⟨c, rfl, first⟩, cs, rfl, blank⟩
    exact ⟨c :: cs, rfl, by rw [List.all_cons, first, blank]; rfl⟩

/-- Bytes hold nothing but white space if each of them is white space. -/
theorem blank_iff_isWhite {bytes : List UInt8} {symbols : List Symbol}
    (holds : Holds bytes symbols) :
    Blank symbols ↔ bytes.all isWhite = true := by
  induction holds with
  | nil => exact iff_of_true Blank.nil rfl
  | @character c bytes symbols _ ih =>
    rw [blank_cons_iff, List.all_append, Bool.and_eq_true, ← isBlank_iff_isWhite, ih]
    simp
  | @stray byte bytes symbols none _ ih =>
    refine iff_of_false (fun blank => ?_) fun white => ?_
    · obtain ⟨⟨c, eq, -⟩, -⟩ := blank_cons_iff.1 blank
      cases eq
    · rw [List.all_cons, Bool.and_eq_true] at white
      obtain ⟨c, single, -⟩ := exists_blank_of_isWhite white.1
      exact none c (single ▸ ⟨bytes, rfl⟩)

/-! ## §2. Readers of whole files -/

section Readers

variable {wording : Wording} {bytes : List UInt8}

/-- A file that is one document, and what it is read as. -/
theorem read_documentText_eq_some_iff {w : Written} :
    Written.read (Content.ofBytes bytes).documentText = some w ↔ Document bytes w := by
  rw [← scan_whole_iff, Written.read, Content.scan]
  cases Written.scan (Content.ofBytes bytes).documentText with
  | none => simp
  | some found =>
    obtain ⟨document, rest⟩ := found
    by_cases blank : skipBlanks rest = [] <;> simp [blank]

/-- An output is read off the files that are one document of an output. -/
theorem CompilerOutput.read?_eq_some_iff {output : CompilerOutput} :
    CompilerOutput.read? (Content.ofBytes bytes).documentText = some output
      ↔ ∃ w, Document bytes w ∧ decode w = some output := by
  rw [CompilerOutput.read?, Option.bind_eq_some_iff]
  simp only [read_documentText_eq_some_iff]

/-- A request is read off the files that are one document with a value. -/
theorem Releases.readRequest_eq_ok_iff {path : String} {request : Json} :
    Releases.readRequest wording path (some (.ofBytes bytes)) = .ok request
      ↔ ∃ w, Document bytes w ∧ w.value? = some request := by
  simp only [← scan_whole_iff, Releases.readRequest]
  cases (Content.ofBytes bytes).scan with
  | none => simp
  | some found =>
    obtain ⟨document, rest⟩ := found
    cases value : document.value? with
    | none => simp +contextual [value]
    | some v => by_cases blank : skipBlanks rest = [] <;> simp [blank, value]

/-! ## §3. Fragments -/

/-- A document describes a unit: it names the unit's version and holds its document. -/
def Fragment.Describes (w : Written) (unit : BuildUnit) : Prop :=
  ∃ longVersion, Fragment.fields? w = some (longVersion, unit.document)
    ∧ Version.ofLongVersion? longVersion = some unit.version

/-- What describes a unit is an object or an array, and so no number. -/
theorem Fragment.Describes.ne_ofLiteral {w : Written} {unit : BuildUnit}
    (h : Fragment.Describes w unit) (l : Json.Literal) : w ≠ ofLiteral l := by
  rintro rfl
  obtain ⟨longVersion, fields, -⟩ := h
  have none : (ofLiteral l).slots? ["solcLongVersion", "input"] = none := by
    unfold ofLiteral
    split <;> rfl
  rw [Fragment.fields?, none] at fields
  cases fields

theorem Fragment.unitOf_eq_ok_iff_scan {content : Content} {unit : BuildUnit} :
    Fragment.unitOf wording content = .ok unit
      ↔ ∃ w rest, content.scan = some (w, rest) ∧ Fragment.Describes w unit := by
  unfold Fragment.unitOf
  constructor
  · intro h
    split at h
    · cases h
    · next longVersion document found =>
      obtain ⟨⟨w, rest⟩, read, fields⟩ := Option.bind_eq_some_iff.1 found
      split at h
      · next version known =>
        cases h
        exact ⟨w, rest, read, longVersion, fields, known⟩
      · cases h
  · rintro ⟨w, rest, read, longVersion, fields, known⟩
    rw [read, Option.bind_some, fields]
    simp only [known]

/-- **A file is taken for a fragment if it begins with one**, whatever follows. -/
theorem Fragment.unitOf_eq_ok_iff {unit : BuildUnit} :
    Fragment.unitOf wording (.ofBytes bytes) = .ok unit
      ↔ ∃ front tail w, bytes = front ++ tail ∧ Document front w ∧ Fragment.Describes w unit := by
  rw [Fragment.unitOf_eq_ok_iff_scan]
  constructor
  · rintro ⟨w, rest, read, describes⟩
    obtain ⟨front, tail, after, rfl, document, -⟩ := exists_document_of_scan read
    exact ⟨front, tail, w, rfl, document, describes⟩
  · rintro ⟨front, tail, w, rfl, document, describes⟩
    obtain ⟨after, holds⟩ := exists_holds tail
    obtain ⟨gap, -, read⟩ := document.scan_append holds
      fun ⟨l, isNumber⟩ => absurd isNumber (describes.ne_ofLiteral l)
    exact ⟨w, _, read, describes⟩

/-- A document with bytes behind it is one document if these are white space. -/
theorem Document.append_iff {w : Written} {tail : List UInt8} (h : Document bytes w)
    (ends : ∀ l, w ≠ ofLiteral l) :
    (∃ w', Document (bytes ++ tail) w') ↔ tail.all isWhite = true := by
  obtain ⟨after, holds⟩ := exists_holds tail
  obtain ⟨gap, blank, read⟩ := h.scan_append holds fun ⟨l, isNumber⟩ => absurd isNumber (ends l)
  rw [← blank_iff_isWhite holds]
  constructor
  · rintro ⟨w', whole⟩
    obtain ⟨rest, read', none⟩ := scan_whole_iff.2 whole
    rw [read] at read'
    cases read'
    rw [blank.skip] at none
    exact blank_of_skipBlanks none
  · intro blank'
    have skipped : skipBlanks (readingOf after) = [] := by
      rw [← List.append_nil (readingOf after), blank'.skip]
      rfl
    exact ⟨w, scan_whole_iff.1 ⟨_, read, (blank.skip _).trans skipped⟩⟩

theorem Fragment.readAll_eq_ok_iff (path : String) {files : List (String × Content)}
    {units : List BuildUnit} :
    Fragment.readAll wording path files = .ok units
      ↔ List.Forall₂ (fun file unit => Fragment.unitOf wording file.2 = .ok unit) files units := by
  induction files generalizing units with
  | nil =>
    rw [Fragment.readAll, List.forall₂_nil_left_iff, Except.ok.injEq]
    exact eq_comm
  | cons file files ih =>
    obtain ⟨name, content⟩ := file
    rw [Fragment.readAll, List.forall₂_cons_left_iff]
    cases first : Fragment.unitOf wording content with
    | error e => simp
    | ok unit =>
      cases rest : Fragment.readAll wording path files with
      | error e => simp [← ih, rest]
      | ok more =>
        simp only [← ih, rest, Except.ok.injEq]
        exact ⟨fun h => ⟨unit, more, rfl, rfl, h.symm⟩, fun ⟨_, _, hu, hm, h⟩ => by rw [h, hu, hm]⟩

/-- The units of a folder are those of its fragments, one for each. -/
theorem Fragment.read_eq_ok_iff {path : String} {entries : List (String × Tree)}
    {units : List BuildUnit} :
    Fragment.read wording path (some entries) = .ok units
      ↔ Path.fits path = true
        ∧ List.Forall₂ (fun file unit => Fragment.unitOf wording file.2 = .ok unit)
            (Fragment.filesIn entries) units := by
  rw [Fragment.read, ← Fragment.readAll_eq_ok_iff path]
  by_cases fits : Path.fits path = true <;> simp [fits]

/-! ## §4. What the readers accept -/

/-- **What follows a document.** Outputs and requests are read off files that are one document with
white space around it, and off no others. A fragment is read off every file that begins with one:
such a file is one document exactly if nothing but white space follows. A folder of fragments is
accepted if each of its files begins with one. -/
theorem Document.accepted_whole_iff (wording : Wording) (bytes : List UInt8) :
    (∀ output, CompilerOutput.read? (Content.ofBytes bytes).documentText = some output
      ↔ ∃ w, Document bytes w ∧ decode w = some output)
    ∧ (∀ path request, Releases.readRequest wording path (some (.ofBytes bytes)) = .ok request
      ↔ ∃ w, Document bytes w ∧ w.value? = some request)
    ∧ (∀ unit, Fragment.unitOf wording (.ofBytes bytes) = .ok unit
      ↔ ∃ front tail w, bytes = front ++ tail ∧ Document front w ∧ Fragment.Describes w unit)
    ∧ (∀ front tail w unit, bytes = front ++ tail → Document front w → Fragment.Describes w unit →
      ((∃ w', Document bytes w') ↔ tail.all isWhite = true))
    ∧ (∀ path entries units, Fragment.read wording path (some entries) = .ok units
      ↔ Path.fits path = true
        ∧ List.Forall₂ (fun file unit => Fragment.unitOf wording file.2 = .ok unit)
            (Fragment.filesIn entries) units) := by
  refine ⟨fun _ => CompilerOutput.read?_eq_some_iff, fun _ _ => Releases.readRequest_eq_ok_iff,
    fun _ => Fragment.unitOf_eq_ok_iff, ?_, fun _ _ _ => Fragment.read_eq_ok_iff⟩
  rintro front tail w unit rfl document describes
  exact document.append_iff describes.ne_ofLiteral

end Readers

/-- A fragment, and an empty object behind it. -/
def Fragment.andMore : String :=
  "\x7b\"solcLongVersion\":\"0.8.19+commit.7dd6d404\","
    ++ "\"input\":\x7b\"language\":\"Solidity\",\"sources\":\x7b\x7d\x7d\x7d \x7b\x7d"

theorem Fragment.exists_unitOf_andMore :
    ∃ unit, Fragment.unitOf {} (.ofBytes (encoded Fragment.andMore)) = .ok unit := by
  have accepted : (Fragment.unitOf {} (.text Fragment.andMore)).isOk = true := by decide +kernel
  rw [ofBytes_encoded]
  cases found : Fragment.unitOf {} (.text Fragment.andMore) with
  | ok unit => exact ⟨unit, rfl⟩
  | error e =>
    rw [found] at accepted
    cases accepted

theorem Fragment.not_document_andMore : ¬ ∃ w, Document (encoded Fragment.andMore) w := by
  rintro ⟨w, whole⟩
  have read := read_documentText_eq_some_iff.2 whole
  have none : Written.read Fragment.andMore = none := by decide +kernel
  rw [ofBytes_encoded, Content.documentText, none] at read
  cases read

theorem Document.accepted_whole_iff_andMore :
    ∃ front tail w unit, encoded Fragment.andMore = front ++ tail ∧ Document front w
      ∧ Fragment.Describes w unit ∧ tail.all isWhite = false := by
  obtain ⟨-, -, fragment, whole, -⟩ := Document.accepted_whole_iff {} (encoded Fragment.andMore)
  obtain ⟨unit, accepted⟩ := Fragment.exists_unitOf_andMore
  obtain ⟨front, tail, w, eq, document, describes⟩ := (fragment unit).1 accepted
  have more := mt (whole front tail w unit eq document describes).2 Fragment.not_document_andMore
  exact ⟨front, tail, w, unit, eq, document, describes, Bool.eq_false_iff.2 more⟩

/-- A file that is accepted for a fragment need not be one document. -/
theorem Fragment.not_always_whole :
    ¬ ∀ (wording : Wording) (bytes : List UInt8) (unit : BuildUnit),
      Fragment.unitOf wording (.ofBytes bytes) = .ok unit → ∃ w, Document bytes w := by
  intro always
  obtain ⟨unit, accepted⟩ := Fragment.exists_unitOf_andMore
  exact Fragment.not_document_andMore (always _ _ unit accepted)

end FuzzBundle
