/-
  FuzzBundle.Proofs.NumberReading — which numbers come through a text.

  Between what is written and what is read stands a text, and a number is the only thing that need
  not come through it as it was: the reader computes a double from the shortest digits of another
  one, and not always the same one. `Json.Number.Steady` says that it is the same. Integers of 64
  bits always come through, and a document that was read from a text holds no others
  (`Json.Number.Fits`).

  Both are carried to all numbers of a document by `Written.EachNumber`, and from a document to its
  value.

  Main statements: `Json.Number.readBack_eq_self_iff`, `Written.fits_of_read`.
-/
import FuzzBundle.Proofs.DocumentReading
import FuzzBundle.Proofs.ValueReading

namespace FuzzBundle

/-! ## §1. Numbers that come through -/

namespace Json.Number

/-- A number as documents hold it: an integer has 64 bits, and only a negative one has a sign. -/
def Fits : Number → Prop
  | .natural n => n ≤ Literal.significandMax
  | .negative n => 0 < n ∧ n ≤ Nat.pow 2 63
  | .real _ => True

/-- A double is steady if it is read where it was written. Integers always are. -/
def Steady : Number → Prop
  | .real x => (real x).readBack = .number (.real x)
  | .natural _ | .negative _ => True

/-- The digits of a negative integer of 64 bits are read as that integer. -/
theorem readBack_negative {n : Nat} (fits : (negative n).Fits) :
    (negative n).readBack = .number (.negative n) := by
  obtain ⟨positive, small⟩ := fits
  have bound : n ≤ Literal.significandMax := by
    show n ≤ Nat.pow 2 64 - 1
    have : Nat.pow 2 63 ≤ Nat.pow 2 64 - 1 := by decide
    omega
  -- no digit is dropped, because the magnitude has 64 bits
  have gathered : Literal.gather 0 (Written.Spelling.ofNatural true n).literal.whole = (n, []) := by
    show Literal.gather 0 ((decimalDigits n).map Written.digitValue) = (n, [])
    rw [Literal.gather_eq_iff (Nat.zero_le _), decimalDigits, Nat.ofDigitChars_ten_toDigits]
    exact ⟨rfl, bound⟩
  have number : (Written.Spelling.ofNatural true n).literal.number? = some (.negative n) := by
    rw [Literal.number?, gathered]
    show (if 0 < n ∧ n ≤ Nat.pow 2 63 then some (negative n) else _) = some (negative n)
    exact if_pos ⟨positive, small⟩
  have text : (Written.Spelling.ofNatural true n).text = (negative n).text :=
    Written.Spelling.text_ofNatural true n
  rw [readBack_of_spelled (Written.Spelling.wellFormed_ofNatural true n) text, Written.ofLiteral,
    number]

/-- Of the numbers that documents hold, those that are read as they are are the steady ones. -/
theorem readBack_eq_self_iff {n : Number} (fits : n.Fits) :
    n.readBack = .number n ↔ n.Steady := by
  cases n with
  | natural n => exact iff_of_true (readBack_eq_natural_iff.2 ⟨rfl, fits⟩) trivial
  | negative n => exact iff_of_true (readBack_negative fits) trivial
  | real x => exact Iff.rfl

end Json.Number

/-! ## §2. Numbers inside documents -/

namespace Written

mutual

/-- Every number of a document has a property. -/
def EachNumber (P : Json.Number → Prop) : Written → Prop
  | .number n => P n
  | .array items => EachNumberItems P items
  | .object fields => EachNumberFields P fields
  | .null | .bool _ | .string _ | .invalid => True

/-- Every number of a list of documents has a property. -/
def EachNumberItems (P : Json.Number → Prop) : List Written → Prop
  | [] => True
  | item :: rest => EachNumber P item ∧ EachNumberItems P rest

/-- Every number of a list of fields has a property. -/
def EachNumberFields (P : Json.Number → Prop) : List (String × Written) → Prop
  | [] => True
  | (_, value) :: rest => EachNumber P value ∧ EachNumberFields P rest

end

variable {P : Json.Number → Prop}

theorem eachNumberItems_iff {items : List Written} :
    EachNumberItems P items ↔ ∀ item ∈ items, item.EachNumber P := by
  induction items with
  | nil => exact iff_of_true trivial nofun
  | cons item rest ih => rw [EachNumberItems, ih, List.forall_mem_cons]

theorem eachNumberFields_iff {fields : List (String × Written)} :
    EachNumberFields P fields ↔ ∀ field ∈ fields, field.2.EachNumber P := by
  induction fields with
  | nil => exact iff_of_true trivial nofun
  | cons field rest ih => rw [EachNumberFields, ih, List.forall_mem_cons]

/-- All integers of a document have 64 bits. -/
abbrev Fits (w : Written) : Prop := w.EachNumber Json.Number.Fits

end Written

/-- Every number of a value has a property. -/
abbrev Json.EachNumber (P : Json.Number → Prop) (value : Json) : Prop := value.written.EachNumber P

/-- Every double of a value is read where it was written. -/
abbrev Json.Steady (value : Json) : Prop := value.EachNumber Json.Number.Steady

namespace Json

variable {P : Number → Prop}

theorem eachNumber_array {items : List Json} :
    (Json.array items).EachNumber P ↔ ∀ item ∈ items, item.EachNumber P := by
  rw [EachNumber, written, Written.EachNumber]
  induction items with
  | nil => exact iff_of_true trivial (List.forall_mem_nil _)
  | cons item rest ih => rw [writtenItems, Written.EachNumberItems, ih, List.forall_mem_cons]

theorem eachNumber_object {fields : List (String × Json)} :
    (Json.object fields).EachNumber P ↔ ∀ field ∈ fields, field.2.EachNumber P := by
  rw [EachNumber, written, Written.EachNumber, Written.eachNumberFields_iff, writtenFields_eq_map,
    List.forall_mem_map]

mutual

/-- The numbers of a value are those of the document that it is the value of. -/
theorem eachNumber_of_value? : ∀ {w : Written} {value : Json}, w.EachNumber P →
    w.value? = some value → value.EachNumber P
  | .null, _, _, h => by cases h; trivial
  | .bool _, _, _, h => by cases h; trivial
  | .number _, _, each, h => by cases h; exact each
  | .string _, _, _, h => by cases h; trivial
  | .invalid, _, _, h => by cases h
  | .array items, _, each, h => by
    rw [Written.value?] at h
    obtain ⟨values, found, rfl⟩ := Option.map_eq_some_iff.1 h
    rw [Written.EachNumber] at each
    exact eachNumber_array.2 (eachNumber_of_values? each found)
  | .object fields, _, each, h => by
    rw [Written.value?] at h
    obtain ⟨values, found, rfl⟩ := Option.map_eq_some_iff.1 h
    rw [Written.EachNumber] at each
    -- a field may take the place of an earlier one, but every field of the value is a written one
    refine eachNumber_object.2 fun field member => ?_
    exact eachNumber_of_fieldValues? each found field (Entries.mem_of_mem_ofList member)

theorem eachNumber_of_values? : ∀ {items : List Written} {values : List Json},
    Written.EachNumberItems P items → Written.values? items = some values →
    ∀ value ∈ values, value.EachNumber P
  | [], _, _, h => by cases h; exact nofun
  | item :: rest, _, each, h => by
    rw [Written.EachNumberItems] at each
    rw [Written.values?] at h
    split at h
    · next first more hfirst hmore =>
      cases h
      exact List.forall_mem_cons.2
        ⟨eachNumber_of_value? each.1 hfirst, eachNumber_of_values? each.2 hmore⟩
    · cases h

theorem eachNumber_of_fieldValues? : ∀ {fields : List (String × Written)}
    {values : List (String × Json)}, Written.EachNumberFields P fields →
    Written.fieldValues? fields = some values → ∀ value ∈ values, value.2.EachNumber P
  | [], _, _, h => by cases h; exact nofun
  | (key, w) :: rest, _, each, h => by
    rw [Written.EachNumberFields] at each
    rw [Written.fieldValues?] at h
    split at h
    · next first more hfirst hmore =>
      cases h
      exact List.forall_mem_cons.2
        ⟨eachNumber_of_value? each.1 hfirst, eachNumber_of_fieldValues? each.2 hmore⟩
    · cases h

end

end Json

/-! ## §3. Numbers that are read -/

namespace Json

/-- What is gathered fits into 64 bits. -/
theorem Literal.fst_gather_le {s : Nat} (digits : List Nat) (fits : s ≤ significandMax) :
    (gather s digits).1 ≤ significandMax := by
  induction digits generalizing s with
  | nil => exact fits
  | cons d rest ih =>
    rw [gather]
    split
    · exact fits
    · exact ih (by omega)

/-- The integers that literals denote have 64 bits. -/
theorem Literal.fits_of_number? {l : Literal} {n : Number} (h : l.number? = some n) :
    n.Fits := by
  have bound : (gather 0 l.whole).1 ≤ significandMax := fst_gather_le l.whole (Nat.zero_le _)
  have double : l.real?.map Number.real = some n → n.Fits := by
    intro real
    obtain ⟨x, -, rfl⟩ := Option.map_eq_some_iff.1 real
    trivial
  rw [number?] at h
  generalize gather 0 l.whole = gathered at h bound
  obtain ⟨magnitude, dropped⟩ := gathered
  dsimp only at h
  split at h
  · split at h
    · cases h
      exact bound
    · split at h
      · next small =>
        cases h
        exact small
      · exact double h
  · exact double h

end Json

namespace Written

theorem fits_ofLiteral (l : Json.Literal) : (ofLiteral l).Fits := by
  unfold ofLiteral
  split
  · next n number => exact Json.Literal.fits_of_number? number
  · trivial

theorem fits_ofText? (text? : Option String) : (ofText? text?).Fits := by
  cases text? <;> trivial

theorem fits_ofFields? {fields? : Option (List (String × Written))}
    (h : ∀ fields, fields? = some fields → EachNumberFields Json.Number.Fits fields) :
    (ofFields? fields?).Fits := by
  cases fields? with
  | none => trivial
  | some fields => exact h fields rfl

mutual

/-- A document that was read has no integer of more than 64 bits. -/
theorem fits_of_scanValue (fuel : Nat) {cs rest : List Char} {w : Written}
    (h : scanValue fuel cs = some (w, rest)) : w.Fits := by
  cases fuel with
  | zero => cases h
  | succ fuel =>
    rw [scanValue] at h
    split at h
    · cases h; trivial
    · cases h; trivial
    · cases h; trivial
    · obtain ⟨read, -, same⟩ := Option.map_eq_some_iff.1 h
      cases same
      exact fits_ofText? _
    · split at h
      · cases h; trivial
      · obtain ⟨read, items, same⟩ := Option.map_eq_some_iff.1 h
        cases same
        exact fits_of_scanItems fuel items
    · split at h
      · cases h; trivial
      · obtain ⟨read, fields, same⟩ := Option.map_eq_some_iff.1 h
        cases same
        exact fits_ofFields? (fits_of_scanFields fuel fields)
    · obtain ⟨read, -, same⟩ := Option.map_eq_some_iff.1 h
      cases same
      exact fits_ofLiteral _
termination_by fuel

theorem fits_of_scanItems (fuel : Nat) {cs rest : List Char} {items : List Written}
    (h : scanItems fuel cs = some (items, rest)) : EachNumberItems Json.Number.Fits items := by
  cases fuel with
  | zero => cases h
  | succ fuel =>
    rw [scanItems] at h
    split at h
    · cases h
    · next item after first =>
      have own := fits_of_scanValue fuel first
      split at h
      · obtain ⟨read, more, same⟩ := Option.map_eq_some_iff.1 h
        cases same
        exact ⟨own, fits_of_scanItems fuel more⟩
      · cases h
        exact ⟨own, trivial⟩
      · cases h
termination_by fuel

/-- The same for fields, if all keys are texts. -/
theorem fits_of_scanFields (fuel : Nat) {cs rest : List Char}
    {fields? : Option (List (String × Written))} (h : scanFields fuel cs = some (fields?, rest))
    (fields : List (String × Written)) (texts : fields? = some fields) :
    EachNumberFields Json.Number.Fits fields := by
  cases fuel with
  | zero => cases h
  | succ fuel =>
    rw [scanFields] at h
    split at h
    · split at h
      · cases h
      · next key? afterKey _ =>
        split at h
        · split at h
          · cases h
          · next value after first =>
            have own := fits_of_scanValue fuel first
            dsimp only at h
            split at h
            · obtain ⟨read, more, same⟩ := Option.map_eq_some_iff.1 h
              cases same
              -- all keys are texts only if this one and those of the rest are
              obtain ⟨field, there, texts⟩ := Option.bind_eq_some_iff.1 texts
              obtain ⟨key, -, rfl⟩ := Option.map_eq_some_iff.1 there
              obtain ⟨tail, others, rfl⟩ := Option.map_eq_some_iff.1 texts
              exact ⟨own, fits_of_scanFields fuel more tail others⟩
            · cases h
              obtain ⟨field, there, rfl⟩ := Option.map_eq_some_iff.1 texts
              obtain ⟨key, -, rfl⟩ := Option.map_eq_some_iff.1 there
              exact ⟨own, trivial⟩
            · cases h
        · cases h
    · cases h
termination_by fuel

end

/-- All integers of a document that a text holds have 64 bits. -/
theorem fits_of_read {text : String} {w : Written} (h : read text = some w) : w.Fits := by
  rw [read] at h
  split at h
  · next document rest scanned =>
    split at h
    · cases h
      exact fits_of_scanValue _ scanned
    · cases h
  · cases h

/-! ## §4. Numbers inside what is read from a document -/

section Parts

variable {P : Json.Number → Prop} {w : Written}

/-- What is found in the slots of a document has the numbers of the document. -/
theorem EachNumber.get?_slots (each : w.EachNumber P) {names : List String} {s : Slots}
    (slots : w.slots? names = some s) {name : String} {found : Written}
    (there : s.get? name = some found) : found.EachNumber P := by
  have member : (name, found) ∈ s.given := Entries.mem_of_get? there
  cases w with
  | object fields =>
    obtain ⟨-, same⟩ := Option.ite_none_right_eq_some.1 slots
    cases same
    rw [EachNumber, eachNumberFields_iff] at each
    exact each _ member
  | array items =>
    obtain ⟨-, same⟩ := Option.ite_none_right_eq_some.1 slots
    cases same
    rw [EachNumber, eachNumberItems_iff] at each
    exact each found (List.of_mem_zip member).2
  | _ => cases slots

/-- So has what a value of a dictionary was read from. -/
theorem EachNumber.exists_decode [Recorded α] {d : Dict α} (each : w.EachNumber P)
    (read : decode w = some d) {key : String} {a : α} (found : d.get? key = some a) :
    ∃ w' : Written, w'.EachNumber P ∧ decode w' = some a := by
  cases w with
  | object fields =>
    obtain ⟨entries, decoded, rfl⟩ := Option.map_eq_some_iff.1 read
    have member : (key, a) ∈ entries := Entries.mem_of_mem_ofList (Entries.mem_of_get? found)
    obtain ⟨w', own, there⟩ := mem_of_decodeFields decoded member
    rw [EachNumber, eachNumberFields_iff] at each
    exact ⟨w', each _ there, own⟩
  | _ => cases read

/-- And so have the fields of other names. -/
theorem EachNumber.unknownFields {fields : List (String × Written)}
    (each : (Written.object fields).EachNumber P) {known : List String} {extra : Dict Json}
    (read : FuzzBundle.unknownFields known fields = some extra) {key : String} {value : Json}
    (found : extra.get? key = some value) : value.EachNumber P := by
  obtain ⟨entries, decoded, rfl⟩ := Option.map_eq_some_iff.1 read
  have member : (key, value) ∈ entries := Entries.mem_of_mem_ofList (Entries.mem_of_get? found)
  obtain ⟨w', own, there⟩ := mem_of_decodeFields decoded member
  rw [EachNumber, eachNumberFields_iff] at each
  exact Json.eachNumber_of_value? (each _ (List.mem_filter.1 there).1) own

end Parts

end Written

end FuzzBundle
