/-
  FuzzBundle.Proofs.FileBytes — what the bytes of a file hold.

  Bytes hold symbols, one after the other: characters, and stray bytes with which no character
  begins (`Holds`). Every list of bytes holds symbols in exactly one way. The symbols of two parts
  are those of the whole where the first part ends with a character (`Holds.append`), because the
  first byte of a character is no later byte of another one.

  Main statements: `leadingCharacter?_eq_some_iff`, `Holds.append`, `documentText_ofBytes`.
-/
import FuzzBundle.Json.Bytes
import Mathlib.Data.List.Basic

namespace FuzzBundle

/-! ## §1. Texts in bytes -/

theorem toByteArray_data (s : String) : s.toByteArray.data.toList = encoded s := by
  have made : s.toByteArray = s.toList.utf8Encode := by
    rw [← String.toByteArray_ofList, String.ofList_toList]
  rw [made, List.utf8Encode, List.data_toByteArray]
  rfl

theorem fromUTF8?_eq_some_iff {bytes : List UInt8} {s : String} :
    String.fromUTF8? ⟨bytes.toArray⟩ = some s ↔ bytes = encoded s := by
  constructor
  · intro h
    rw [String.fromUTF8?] at h
    split at h
    · next valid =>
      cases h
      exact toByteArray_data (String.fromUTF8 ⟨bytes.toArray⟩ valid)
    · cases h
  · intro h
    have same : (⟨bytes.toArray⟩ : ByteArray) = s.toByteArray :=
      ByteArray.ext (by rw [h, ← toByteArray_data])
    rw [same, String.fromUTF8?, dif_pos s.isValidUTF8]
    rfl

/-- Bytes are stored as they are. -/
@[simp] theorem stored_ofBytes (bytes : List UInt8) : (Content.ofBytes bytes).stored = bytes := by
  unfold Content.ofBytes
  split
  · next s text => exact (fromUTF8?_eq_some_iff.1 text).symm
  · rfl

/-- A file holds a text if its bytes are those of the text. -/
theorem text?_ofBytes_eq_some_iff {bytes : List UInt8} {s : String} :
    (Content.ofBytes bytes).text? = some s ↔ bytes = encoded s := by
  rw [← fromUTF8?_eq_some_iff]
  unfold Content.ofBytes
  split
  · next s' text => rw [text]; rfl
  · next none => simp [none, Content.text?]

/-- The bytes of a text are read as that text. -/
@[simp] theorem ofBytes_encoded (s : String) : Content.ofBytes (encoded s) = .text s := by
  rw [Content.ofBytes, fromUTF8?_eq_some_iff.2 rfl]

/-- Files with the same content have the same bytes. -/
theorem ofBytes_inj {bytes bytes' : List UInt8} (h : Content.ofBytes bytes = .ofBytes bytes') :
    bytes = bytes' := by rw [← stored_ofBytes bytes, h, stored_ofBytes]

theorem encoded_inj {s s' : String} (h : encoded s = encoded s') : s = s' := by
  have same : Content.ofBytes (encoded s) = .ofBytes (encoded s') := by rw [h]
  rw [ofBytes_encoded, ofBytes_encoded] at same
  exact Content.text.inj same

/-! ## §2. The character at a place -/

theorem utf8EncodeChar_eq_cons (c : Char) :
    ∃ byte more, String.utf8EncodeChar c = byte :: more := by
  obtain ⟨byte, more, eq⟩ := List.exists_cons_of_ne_nil (String.utf8EncodeChar_ne_nil (c := c))
  exact ⟨byte, more, eq⟩

/-- At most one character begins at a place. -/
theorem character_unique {bytes : List UInt8} {c d : Char}
    (hc : String.utf8EncodeChar c <+: bytes) (hd : String.utf8EncodeChar d <+: bytes) : c = d := by
  have decoded {e : Char} (he : String.utf8EncodeChar e <+: bytes) :
      bytes.toByteArray.utf8DecodeChar? 0 = some e := by
    obtain ⟨rest, rfl⟩ := he
    rw [List.toByteArray_append]
    exact ByteArray.utf8DecodeChar?_utf8EncodeChar_append
  exact Option.some.inj ((decoded hc).symm.trans (decoded hd))

/-- What the first bytes of some bytes begin with as a text begins the whole. -/
theorem prefix_of_firstCharacter {bytes : List UInt8} {n : Nat} {c : Char}
    (h : (String.fromUTF8? ⟨(bytes.take n).toArray⟩).bind (·.toList.head?) = some c) :
    String.utf8EncodeChar c <+: bytes := by
  obtain ⟨s, text, head⟩ := Option.bind_eq_some_iff.1 h
  obtain ⟨more, chars⟩ := List.head?_eq_some_iff.1 head
  have front : bytes.take n = String.utf8EncodeChar c ++ more.flatMap String.utf8EncodeChar := by
    rw [fromUTF8?_eq_some_iff.1 text, encoded, chars, List.flatMap_cons]
  exact (front ▸ List.prefix_append _ _).trans (List.take_prefix n bytes)

/-- The bytes of a character alone are a text. -/
theorem firstCharacter_utf8Size (c : Char) (rest : List UInt8) :
    (String.fromUTF8? ⟨((String.utf8EncodeChar c ++ rest).take c.utf8Size).toArray⟩).bind
      (·.toList.head?) = some c := by
  have alone : (String.utf8EncodeChar c ++ rest).take c.utf8Size
      = encoded (String.ofList [c]) := by
    rw [← String.length_utf8EncodeChar c, List.take_left, encoded, String.toList_ofList,
      List.flatMap_singleton]
  rw [fromUTF8?_eq_some_iff.2 alone]
  simp

theorem utf8Size_mem (c : Char) : c.utf8Size ∈ [1, 2, 3, 4] := by
  have least := Char.utf8Size_pos c
  have most := Char.utf8Size_le_four c
  have cases : c.utf8Size = 1 ∨ c.utf8Size = 2 ∨ c.utf8Size = 3 ∨ c.utf8Size = 4 := by omega
  simpa using cases

/-- A character is found where its bytes are. -/
theorem leadingCharacter?_eq_some_iff {bytes : List UInt8} {c : Char} :
    leadingCharacter? bytes = some c ↔ String.utf8EncodeChar c <+: bytes := by
  constructor
  · intro h
    obtain ⟨n, -, here⟩ := List.exists_of_findSome?_eq_some h
    exact prefix_of_firstCharacter here
  · rintro ⟨rest, rfl⟩
    rw [leadingCharacter?]
    cases first : [1, 2, 3, 4].findSome? fun n =>
        (String.fromUTF8? ⟨((String.utf8EncodeChar c ++ rest).take n).toArray⟩).bind
          (·.toList.head?) with
    | none =>
      have nothing := List.findSome?_eq_none_iff.1 first c.utf8Size (utf8Size_mem c)
      rw [firstCharacter_utf8Size c rest] at nothing
      cases nothing
    | some d =>
      -- no other character begins where this one stands
      obtain ⟨n, -, here⟩ := List.exists_of_findSome?_eq_some first
      rw [character_unique (prefix_of_firstCharacter here) (List.prefix_append _ rest)]

/-! ## §3. Symbols -/

/-- What bytes hold at a place: a character, or a byte with which none begins. -/
inductive Symbol where
  | character (c : Char)
  | stray (byte : UInt8)
  deriving DecidableEq, Repr

/-- Bytes hold symbols, one after the other. -/
inductive Holds : List UInt8 → List Symbol → Prop where
  | nil : Holds [] []
  | character (c : Char) {bytes : List UInt8} {symbols : List Symbol} :
      Holds bytes symbols →
      Holds (String.utf8EncodeChar c ++ bytes) (.character c :: symbols)
  | stray {byte : UInt8} {bytes : List UInt8} {symbols : List Symbol} :
      (∀ c, ¬ String.utf8EncodeChar c <+: byte :: bytes) → Holds bytes symbols →
      Holds (byte :: bytes) (.stray byte :: symbols)

/-- All bytes hold symbols. -/
theorem exists_holds (bytes : List UInt8) : ∃ symbols, Holds bytes symbols := by
  induction length : bytes.length using Nat.strongRecOn generalizing bytes with
  | _ n ih =>
    cases bytes with
    | nil => exact ⟨[], .nil⟩
    | cons byte rest =>
      by_cases begins : ∃ c, String.utf8EncodeChar c <+: byte :: rest
      · obtain ⟨c, more, eq⟩ := begins
        have shorter : more.length < n := by
          have lengths := congrArg List.length eq
          rw [List.length_append, String.length_utf8EncodeChar, length] at lengths
          have := Char.utf8Size_pos c
          omega
        obtain ⟨symbols, holds⟩ := ih more.length shorter more rfl
        rw [← eq]
        exact ⟨_, .character c holds⟩
      · obtain ⟨symbols, holds⟩ := ih rest.length (by rw [← length]; simp) rest rfl
        exact ⟨_, .stray (fun c h => begins ⟨c, h⟩) holds⟩

/-- The bytes of a text hold its characters. -/
theorem holds_encoded (s : String) : Holds (encoded s) (s.toList.map .character) := by
  rw [encoded]
  induction s.toList with
  | nil => exact .nil
  | cons c cs ih => exact .character c ih

/-- Bytes hold no other symbols than they do. -/
theorem Holds.unique {bytes : List UInt8} {symbols symbols' : List Symbol}
    (h : Holds bytes symbols) (h' : Holds bytes symbols') : symbols = symbols' := by
  induction h generalizing symbols' with
  | nil =>
    generalize empty : ([] : List UInt8) = bytes at h'
    cases h' with
    | nil => rfl
    | character c _ =>
      exact absurd (List.append_eq_nil_iff.1 empty.symm).1 String.utf8EncodeChar_ne_nil
    | stray _ _ => cases empty
  | @character c bytes symbols _ ih =>
    generalize eq : String.utf8EncodeChar c ++ bytes = whole at h'
    have begins : String.utf8EncodeChar c <+: whole := eq ▸ List.prefix_append _ _
    cases h' with
    | nil => exact absurd (List.append_eq_nil_iff.1 eq).1 String.utf8EncodeChar_ne_nil
    | @character d bytes' symbols' holds =>
      obtain rfl := character_unique begins (List.prefix_append _ _)
      rw [ih (List.append_cancel_left eq ▸ holds)]
    | stray none _ => exact absurd begins (none c)
  | @stray byte bytes symbols none _ ih =>
    generalize eq : byte :: bytes = whole at h'
    cases h' with
    | nil => cases eq
    | character c _ => exact absurd (eq ▸ List.prefix_append _ _) (none c)
    | stray _ holds =>
      cases eq
      rw [ih holds]

/-- The bytes of some symbols and of those that follow. -/
theorem Holds.split {front back : List Symbol} {bytes : List UInt8}
    (h : Holds bytes (front ++ back)) :
    ∃ first last, bytes = first ++ last ∧ Holds first front ∧ Holds last back := by
  induction front generalizing bytes with
  | nil => exact ⟨[], bytes, rfl, .nil, h⟩
  | cons symbol front ih =>
    cases h with
    | character c holds =>
      obtain ⟨first, last, rfl, hf, hl⟩ := ih holds
      exact ⟨_, last, (List.append_assoc _ _ _).symm, .character c hf, hl⟩
    | stray none holds =>
      obtain ⟨first, last, rfl, hf, hl⟩ := ih holds
      refine ⟨_ :: first, last, rfl, .stray (fun c begins => none c ?_) hf, hl⟩
      exact begins.trans (List.prefix_append (_ :: first) last)

/-- No character reaches into another one that begins behind its own first byte. -/
theorem prefix_of_prefix_later {byte : UInt8} {between rest : List UInt8} {c d : Char}
    (h : String.utf8EncodeChar c <+: byte :: between ++ String.utf8EncodeChar d ++ rest) :
    String.utf8EncodeChar c <+: byte :: between := by
  by_contra long
  -- the first byte of the later character would be a later byte of the first one
  have reaches : (byte :: between).length < (String.utf8EncodeChar c).length := by
    by_contra short
    have front : String.utf8EncodeChar c
        <+: byte :: between ++ (String.utf8EncodeChar d ++ rest) := by
      rwa [List.append_assoc] at h
    exact long (List.prefix_of_prefix_length_le front (List.prefix_append _ _) (by omega))
  have place : (byte :: between).length ≠ 0 := by simp
  obtain ⟨first, more, eq⟩ := utf8EncodeChar_eq_cons d
  have later : (String.utf8EncodeChar c)[(byte :: between).length] = first := by
    rw [h.getElem reaches]
    simp [eq]
  have present : 0 < (String.utf8EncodeChar d).length := by simp [eq]
  have begins : (String.utf8EncodeChar d)[0] = first := by simp [eq]
  have isFirst : first.IsUTF8FirstByte :=
    begins ▸ UInt8.isUTF8FirstByte_getElem_utf8EncodeChar.2 rfl
  exact place (UInt8.isUTF8FirstByte_getElem_utf8EncodeChar.1 (later ▸ isFirst))

/-- **Symbols are those of the parts**, if the first part ends with a character. -/
theorem Holds.append {first last : List UInt8} {front back : List Symbol} {c : Char}
    (hf : Holds first (front ++ [.character c])) (hl : Holds last back) :
    Holds (first ++ last) (front ++ .character c :: back) := by
  induction front generalizing first with
  | nil =>
    cases hf with
    | character c holds =>
      cases holds
      rw [List.append_nil]
      exact .character c hl
  | cons symbol front ih =>
    cases hf with
    | character d holds =>
      rw [List.append_assoc]
      exact .character d (ih holds)
    | stray none holds =>
      refine .stray (fun d begins => ?_) (ih holds)
      obtain ⟨between, own, rfl, -, held⟩ := holds.split
      cases held with
      | character _ held =>
        cases held
        rw [List.append_nil] at none begins
        have short := prefix_of_prefix_later (d := c) begins
        exact none d (short.trans (List.prefix_append (_ :: between) _))

/-! ## §4. How symbols are read -/

/-- The characters that stand for a symbol in the text of a document. -/
def Symbol.reading : Symbol → List Char
  | .character c => [c]
  | .stray _ => noCharacter

/-- The characters that stand for some symbols. -/
def readingOf (symbols : List Symbol) : List Char := symbols.flatMap Symbol.reading

theorem charactersFrom_append (taken rest : List UInt8) :
    charactersFrom taken.length (taken ++ rest) = charactersFrom 0 rest := by
  induction taken with
  | nil => rfl
  | cons byte taken ih => exact ih

theorem charactersFrom_eq {bytes : List UInt8} {symbols : List Symbol} (h : Holds bytes symbols) :
    charactersFrom 0 bytes = readingOf symbols := by
  induction h with
  | nil => rfl
  | @character c bytes symbols _ ih =>
    have here :=
      leadingCharacter?_eq_some_iff.2 (List.prefix_append (String.utf8EncodeChar c) bytes)
    have size := String.length_utf8EncodeChar c
    obtain ⟨byte, more, eq⟩ := utf8EncodeChar_eq_cons c
    rw [eq, List.cons_append] at here ⊢
    have left : c.utf8Size - 1 = more.length := by
      rw [← size, eq, List.length_cons, Nat.add_sub_cancel]
    rw [charactersFrom, here]
    simp only
    rw [left, charactersFrom_append, ih]
    rfl
  | @stray byte bytes symbols none _ ih =>
    have nothing : leadingCharacter? (byte :: bytes) = .none :=
      Option.eq_none_iff_forall_ne_some.2 fun c here =>
        none c (leadingCharacter?_eq_some_iff.1 here)
    rw [charactersFrom, nothing]
    simp only
    rw [ih]
    rfl

/-- **The text of a document is read off the symbols of its file.** -/
theorem documentText_ofBytes {bytes : List UInt8} {symbols : List Symbol}
    (h : Holds bytes symbols) :
    (Content.ofBytes bytes).documentText.toList = readingOf symbols := by
  unfold Content.ofBytes
  split
  · next s text =>
    have same := h.unique (fromUTF8?_eq_some_iff.1 text ▸ holds_encoded s)
    rw [same, readingOf, List.flatMap_map]
    exact (List.flatMap_singleton' s.toList).symm
  · rw [Content.documentText, String.toList_ofList, charactersFrom_eq h]

end FuzzBundle
