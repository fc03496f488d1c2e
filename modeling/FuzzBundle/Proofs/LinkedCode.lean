/-
  FuzzBundle.Proofs.LinkedCode — placeholders of libraries as zero bytes.

  Code that is not linked yet is a row of digits and placeholders (`UnlinkedCode`), and the text of
  a placeholder may hold further underscores or touch those of the next one. Filling goes from left
  to right and by pieces all the same (`fill_piece`): no placeholder begins at a digit, and the 40
  characters of one that has begun are left behind as a whole. So every placeholder is forty zeros
  at the place where it stood, and all digits stay at theirs.

  Digits have bytes exactly if there is an even number of them (`exists_bytesOf?_iff`), and bytes of
  digits that follow each other follow each other (`bytesOf?_append`). Both hold of linked code and
  of what is sent to deploy it.

  Main statement: `unlinked_decoded`.
-/
import Mathlib.Data.List.Basic
import FuzzBundle.Deployment.Reconciliation

namespace FuzzBundle.Bytecode

/-! ## §1. Code that is not linked -/

/-- A digit of code, or the place of a library with what stands between its underscores. -/
inductive Piece where
  | digit (c : Char) (hex : (Hex.value? c).isSome = true)
  | placeholder (name : List Char) (wide : name.length = 36) (oneLine : '\n' ∉ name)

/-- The characters of a piece. -/
def Piece.text : Piece → List Char
  | .digit c _ => [c]
  | .placeholder name _ _ => '_' :: '_' :: (name ++ ['_', '_'])

/-- What a piece becomes: a placeholder is forty zeros. -/
def Piece.linked : Piece → List Char
  | .digit c _ => [c]
  | .placeholder _ _ _ => List.replicate 40 '0'

theorem Piece.length_linked (p : Piece) : p.linked.length = p.text.length := by
  cases p with
  | digit c hex => rfl
  | placeholder name wide oneLine =>
    show (List.replicate 40 '0').length = (name ++ ['_', '_']).length + 1 + 1
    rw [List.length_replicate, List.length_append, wide]
    rfl

theorem Piece.hex_linked (p : Piece) : ∀ c ∈ p.linked, (Hex.value? c).isSome = true := by
  intro c member
  cases p with
  | digit d hex =>
    rw [List.mem_singleton.1 member]
    exact hex
  | placeholder name wide oneLine =>
    rw [List.eq_of_mem_replicate member]
    rfl

/-- What may stand in front of digits. -/
def hexPrefix (prefixed : Bool) : List Char := if prefixed then ['0', 'x'] else []

/-- Code that is not linked, with `0x` in front or without it. -/
structure UnlinkedCode where
  prefixed : Bool
  pieces : List Piece

namespace UnlinkedCode

/-- The characters of the pieces. -/
def body (u : UnlinkedCode) : List Char := u.pieces.flatMap Piece.text

/-- The characters of the linked pieces. -/
def linked (u : UnlinkedCode) : List Char := u.pieces.flatMap Piece.linked

/-- The whole text. -/
def text (u : UnlinkedCode) : String := String.ofList (hexPrefix u.prefixed ++ u.body)

end UnlinkedCode

/-- How many characters some pieces have. -/
def width (pieces : List Piece) : Nat := (pieces.flatMap Piece.text).length

theorem length_flatMap_linked (pieces : List Piece) :
    (pieces.flatMap Piece.linked).length = width pieces := by
  unfold width
  rw [List.length_flatMap, List.length_flatMap]
  exact congrArg List.sum (List.map_congr_left fun p _ => p.length_linked)

theorem hex_flatMap_linked (pieces : List Piece) :
    ∀ c ∈ pieces.flatMap Piece.linked, (Hex.value? c).isSome = true :=
  List.forall_mem_flatMap.2 fun p _ => p.hex_linked

/-! ## §2. Filling by pieces -/

theorem startsPlaceholder_of_ne {c : Char} (h : c ≠ '_') (rest : List Char) :
    startsPlaceholder (c :: rest) = false := by
  unfold startsPlaceholder
  split
  · next same =>
    cases same
    exact absurd rfl h
  · rfl

/-- Whatever follows a placeholder and whatever its text is, it is seen where it begins. -/
theorem startsPlaceholder_text {name : List Char} (wide : name.length = 36)
    (oneLine : '\n' ∉ name) (rest : List Char) :
    startsPlaceholder ('_' :: '_' :: (name ++ '_' :: '_' :: rest)) = true := by
  have lines : name.all (· ≠ '\n') = true := by
    rw [List.all_eq_true]
    intro c member
    exact decide_eq_true fun same => oneLine (same ▸ member)
  unfold startsPlaceholder
  simp only [List.take_left' wide, List.drop_left' wide, wide, lines]
  rfl

/-- The characters that belong to a placeholder are left behind as zeros. -/
theorem fill_inside (cs rest : List Char) :
    fill cs.length (cs ++ rest) = List.replicate cs.length '0' ++ fill 0 rest := by
  induction cs with
  | nil => rfl
  | cons c cs ih =>
    show '0' :: fill cs.length (cs ++ rest) = '0' :: (List.replicate cs.length '0' ++ fill 0 rest)
    rw [ih]

/-- **A piece is filled as if nothing followed it**, and the rest as if nothing came before. -/
theorem fill_piece (p : Piece) (rest : List Char) :
    fill 0 (p.text ++ rest) = p.linked ++ fill 0 rest := by
  cases p with
  | digit c hex =>
    -- no placeholder begins at a digit
    have other : c ≠ '_' := by
      intro same
      subst same
      cases hex
    show fill 0 (c :: rest) = c :: fill 0 rest
    rw [fill, if_neg (by rw [startsPlaceholder_of_ne other]; decide)]
  | placeholder name wide oneLine =>
    have split : (name ++ ['_', '_']) ++ rest = name ++ '_' :: '_' :: rest :=
      List.append_assoc name ['_', '_'] rest
    have inside : ('_' :: (name ++ ['_', '_'])).length = 39 := by
      rw [List.length_cons, List.length_append, wide]
      rfl
    show fill 0 ('_' :: '_' :: ((name ++ ['_', '_']) ++ rest)) = _
    rw [fill, split, if_pos (startsPlaceholder_text wide oneLine rest), ← split]
    -- the first underscore is gone, and 39 characters of the placeholder are to come
    have left := fill_inside ('_' :: (name ++ ['_', '_'])) rest
    rw [inside] at left
    exact congrArg ('0' :: ·) left

theorem fill_pieces (pieces : List Piece) :
    fill 0 (pieces.flatMap Piece.text) = pieces.flatMap Piece.linked := by
  induction pieces with
  | nil => rfl
  | cons p pieces ih => rw [List.flatMap_cons, List.flatMap_cons, fill_piece, ih]

/-! ## §3. What stands in front -/

/-- What follows `0x` is what is left without it, and so is a text that does not begin with it. -/
theorem dropStart_hexPrefix (prefixed : Bool) {cs : List Char}
    (h : ∀ rest, cs ≠ '0' :: 'x' :: rest) :
    Text.dropStart "0x" (String.ofList (hexPrefix prefixed ++ cs)) = String.ofList cs := by
  cases prefixed with
  | true =>
    have found : Text.dropStart? "0x".toList (String.ofList (hexPrefix true ++ cs)).toList
        = some cs :=
      Text.dropStart?_eq_some_iff.2 String.toList_ofList
    unfold Text.dropStart
    rw [found]
  | false =>
    have bare : hexPrefix false ++ cs = cs := List.nil_append cs
    rw [bare]
    unfold Text.dropStart
    cases found : Text.dropStart? "0x".toList (String.ofList cs).toList with
    | none => rfl
    | some rest =>
      have begins := Text.dropStart?_eq_some_iff.1 found
      rw [String.toList_ofList] at begins
      exact absurd begins (h rest)

/-- Digits do not begin with `0x`. -/
theorem ne_hexPrefix_of_hex {cs : List Char} (hex : ∀ c ∈ cs, (Hex.value? c).isSome = true)
    (rest : List Char) : cs ≠ '0' :: 'x' :: rest := by
  intro same
  have bad := hex 'x' (by rw [same]; exact .tail _ (.head _))
  cases bad

/-- Pieces do not begin with `0x`, since a piece after the first one begins with a digit or an
underscore. -/
theorem body_ne_hexPrefix (u : UnlinkedCode) (rest : List Char) :
    u.body ≠ '0' :: 'x' :: rest := by
  obtain ⟨prefixed, pieces⟩ := u
  show pieces.flatMap Piece.text ≠ _
  intro same
  cases pieces with
  | nil => cases same
  | cons first pieces =>
    cases first with
    | placeholder name wide oneLine => cases (List.cons.inj same).1
    | digit c hex =>
      have tail : pieces.flatMap Piece.text = 'x' :: rest := (List.cons.inj same).2
      cases pieces with
      | nil => cases tail
      | cons second pieces =>
        cases second with
        | placeholder name wide oneLine => cases (List.cons.inj tail).1
        | digit d hex =>
          rw [(List.cons.inj tail).1] at hex
          cases hex

/-- **Normal code has forty zeros for each placeholder.** -/
theorem normalize_text (u : UnlinkedCode) : normalize u.text = String.ofList u.linked := by
  unfold normalize UnlinkedCode.text
  rw [dropStart_hexPrefix _ (body_ne_hexPrefix u), String.toList_ofList]
  exact congrArg String.ofList (fill_pieces u.pieces)

/-! ## §4. Bytes of digits -/

/-- Two characters have a byte if both are digits, and the bytes of the rest follow it. -/
theorem bytesOf?_cons_cons_iff (a b : Char) (rest : List Char) (bytes : List UInt8) :
    bytesOf? (a :: b :: rest) = some bytes
      ↔ ∃ high low more, Hex.value? a = some high ∧ Hex.value? b = some low
          ∧ bytesOf? rest = some more ∧ bytes = UInt8.ofNat (16 * high + low) :: more := by
  rw [bytesOf?]
  constructor
  · intro read
    split at read
    · next high low more ha hb hrest =>
      cases read
      exact ⟨high, low, more, ha, hb, hrest, rfl⟩
    · cases read
  · intro ⟨high, low, more, ha, hb, hrest, same⟩
    rw [ha, hb, hrest, same]

/-- **Characters have bytes exactly if they are an even number of digits.** -/
theorem exists_bytesOf?_iff : ∀ cs : List Char,
    (∃ bytes, bytesOf? cs = some bytes)
      ↔ cs.length % 2 = 0 ∧ ∀ c ∈ cs, (Hex.value? c).isSome = true
  | [] => ⟨fun _ => ⟨rfl, nofun⟩, fun _ => ⟨[], rfl⟩⟩
  | [_] => ⟨nofun, nofun⟩
  | a :: b :: rest => by
    have parity : (a :: b :: rest).length % 2 = rest.length % 2 := by
      show (rest.length + 2) % 2 = _
      omega
    rw [parity, List.forall_mem_cons, List.forall_mem_cons]
    constructor
    · intro ⟨bytes, read⟩
      obtain ⟨high, low, more, ha, hb, hrest, -⟩ := (bytesOf?_cons_cons_iff a b rest bytes).1 read
      obtain ⟨even, hex⟩ := (exists_bytesOf?_iff rest).1 ⟨more, hrest⟩
      exact ⟨even, by rw [ha]; rfl, by rw [hb]; rfl, hex⟩
    · intro ⟨even, hexA, hexB, hex⟩
      obtain ⟨high, ha⟩ := Option.isSome_iff_exists.1 hexA
      obtain ⟨low, hb⟩ := Option.isSome_iff_exists.1 hexB
      obtain ⟨more, hrest⟩ := (exists_bytesOf?_iff rest).2 ⟨even, hex⟩
      exact ⟨_, (bytesOf?_cons_cons_iff a b rest _).2 ⟨high, low, more, ha, hb, hrest, rfl⟩⟩

theorem length_of_bytesOf? : ∀ {cs : List Char} {bytes : List UInt8},
    bytesOf? cs = some bytes → cs.length = 2 * bytes.length
  | [], _, read => by cases read; rfl
  | [_], _, read => nomatch read
  | a :: b :: rest, bytes, read => by
    obtain ⟨high, low, more, -, -, hrest, same⟩ := (bytesOf?_cons_cons_iff a b rest bytes).1 read
    have ih := length_of_bytesOf? hrest
    rw [same]
    show rest.length + 2 = 2 * (more.length + 1)
    omega

/-- The bytes of characters that follow others follow the bytes of these. -/
theorem bytesOf?_append : ∀ {cs : List Char} {bytes : List UInt8},
    bytesOf? cs = some bytes → ∀ {more : List Char} {others : List UInt8},
      bytesOf? more = some others → bytesOf? (cs ++ more) = some (bytes ++ others)
  | [], _, read, _, _, readMore => by cases read; exact readMore
  | [_], _, read, _, _, _ => nomatch read
  | a :: b :: rest, bytes, read, more, others, readMore => by
    obtain ⟨high, low, left, ha, hb, hrest, same⟩ := (bytesOf?_cons_cons_iff a b rest bytes).1 read
    have ih := bytesOf?_append hrest readMore
    refine (bytesOf?_cons_cons_iff a b (rest ++ more) _).2
      ⟨high, low, left ++ others, ha, hb, ih, ?_⟩
    rw [same]
    rfl

/-- Characters behind an even number of others have bytes of their own. -/
theorem exists_of_bytesOf?_append {cs more : List Char} {bytes : List UInt8}
    (read : bytesOf? (cs ++ more) = some bytes) (even : cs.length % 2 = 0) :
    ∃ first others, bytesOf? cs = some first ∧ bytesOf? more = some others
      ∧ bytes = first ++ others := by
  obtain ⟨parity, hex⟩ := (exists_bytesOf?_iff (cs ++ more)).1 ⟨bytes, read⟩
  rw [List.length_append] at parity
  obtain ⟨hexFirst, hexMore⟩ := List.forall_mem_append.1 hex
  obtain ⟨first, readFirst⟩ := (exists_bytesOf?_iff cs).2 ⟨even, hexFirst⟩
  obtain ⟨others, readMore⟩ := (exists_bytesOf?_iff more).2 ⟨by omega, hexMore⟩
  refine ⟨first, others, readFirst, readMore, ?_⟩
  exact Option.some.inj (read.symm.trans (bytesOf?_append readFirst readMore))

/-- A digit is one byte of encoded text. -/
theorem utf8Size_of_hex {c : Char} (hex : (Hex.value? c).isSome = true) : c.utf8Size = 1 := by
  rw [Char.utf8Size_eq_one_iff]
  unfold Hex.value? at hex
  -- each of the three ranges of digits ends within ASCII
  have upper {c d : Char} (below : c ≤ d) (ascii : d.val ≤ 127) : c.val ≤ 127 :=
    UInt32.le_trans below ascii
  split at hex
  · next range => exact upper range.2 (by decide)
  · split at hex
    · next range => exact upper range.2 (by decide)
    · split at hex
      · next range => exact upper range.2 (by decide)
      · cases hex

theorem utf8ByteSize_of_hex {cs : List Char} (hex : ∀ c ∈ cs, (Hex.value? c).isSome = true) :
    (String.ofList cs).utf8ByteSize = cs.length := by
  induction cs with
  | nil => rfl
  | cons c cs ih =>
    obtain ⟨first, rest⟩ := List.forall_mem_cons.1 hex
    rw [String.ofList_cons, String.utf8ByteSize_append, String.utf8ByteSize_singleton,
      utf8Size_of_hex first, ih rest, List.length_cons, Nat.add_comm]

/-- The length of a text that has bytes is even, so that it is never what is wrong. -/
theorem bytesOfText_eq_ok_iff (cs : List Char) (bytes : List UInt8) :
    bytesOfText (String.ofList cs) = .ok bytes ↔ bytesOf? cs = some bytes := by
  unfold bytesOfText
  rw [String.toList_ofList]
  constructor
  · intro read
    split at read
    · cases read
    · split at read
      · next found =>
        cases read
        exact found
      · cases read
  · intro found
    obtain ⟨even, hex⟩ := (exists_bytesOf?_iff cs).1 ⟨bytes, found⟩
    rw [utf8ByteSize_of_hex hex, if_neg (by omega), found]

theorem decode_eq_ok_iff (code : String) (bytes : List UInt8) :
    decode code = .ok bytes ↔ bytesOf? (normalize code).toList = some bytes := by
  rw [← bytesOfText_eq_ok_iff, String.ofList_toList]
  rfl

/-! ## §5. Bytes of linked code -/

/-- A part stands in a list from an offset on. -/
def StandsAt {α : Type} (part : List α) (offset : Nat) (whole : List α) : Prop :=
  (whole.drop offset).take part.length = part

theorem standsAt_append {α : Type} (before part after : List α) :
    StandsAt part before.length (before ++ (part ++ after)) := by
  unfold StandsAt
  rw [List.drop_left, List.take_left]

namespace UnlinkedCode

theorem length_linked (u : UnlinkedCode) : u.linked.length = u.body.length :=
  length_flatMap_linked u.pieces

theorem decode_text_iff (u : UnlinkedCode) (bytes : List UInt8) :
    decode u.text = .ok bytes ↔ bytesOf? u.linked = some bytes := by
  rw [decode_eq_ok_iff, normalize_text, String.toList_ofList]

/-- Linked code has nothing but digits, so that only their number matters. -/
theorem exists_decode_iff (u : UnlinkedCode) :
    (∃ bytes, decode u.text = .ok bytes) ↔ u.body.length % 2 = 0 := by
  simp only [decode_text_iff]
  rw [exists_bytesOf?_iff, length_linked]
  exact and_iff_left (hex_flatMap_linked u.pieces)

theorem length_of_decode {u : UnlinkedCode} {bytes : List UInt8} (h : decode u.text = .ok bytes) :
    bytes.length = u.body.length / 2 := by
  have length := length_of_bytesOf? ((decode_text_iff u bytes).1 h)
  rw [length_linked] at length
  omega

/-- A piece stands where it stood before, linked or not. -/
theorem standsAt_piece {u : UnlinkedCode} {before after : List Piece} {p : Piece}
    (split : u.pieces = before ++ p :: after) :
    StandsAt p.text (width before) u.body
    ∧ StandsAt p.linked (width before) (normalize u.text).toList := by
  constructor
  · unfold UnlinkedCode.body
    rw [split, List.flatMap_append, List.flatMap_cons]
    exact standsAt_append _ _ _
  · rw [normalize_text, String.toList_ofList, ← length_flatMap_linked before]
    unfold UnlinkedCode.linked
    rw [split, List.flatMap_append, List.flatMap_cons]
    exact standsAt_append _ _ _

/-- A placeholder that begins with a byte is twenty zero bytes. -/
theorem standsAt_zeros {u : UnlinkedCode} {before after : List Piece} {p : Piece}
    {bytes : List UInt8} (split : u.pieces = before ++ p :: after)
    (zeros : p.linked = List.replicate 40 '0') (even : width before % 2 = 0)
    (h : decode u.text = .ok bytes) :
    StandsAt (List.replicate 20 0) (width before / 2) bytes := by
  have read := (decode_text_iff u bytes).1 h
  have length := length_flatMap_linked before
  unfold UnlinkedCode.linked at read
  rw [split, List.flatMap_append, List.flatMap_cons, zeros] at read
  -- the bytes before the placeholder are apart from its own, and these from what follows
  obtain ⟨first, rest, readFirst, readRest, same⟩ :=
    exists_of_bytesOf?_append read (by rw [length]; exact even)
  obtain ⟨twenty, others, readZeros, -, sameRest⟩ :=
    exists_of_bytesOf?_append readRest (by rw [List.length_replicate])
  have zeroBytes : bytesOf? (List.replicate 40 '0') = some (List.replicate 20 0) := by decide
  cases zeroBytes.symm.trans readZeros
  have half : width before / 2 = first.length := by
    have := length_of_bytesOf? readFirst
    omega
  rw [same, sameRest, half]
  exact standsAt_append _ _ _

end UnlinkedCode

/-! ## §6. What is sent -/

/-- Constructor arguments: an even number of digits, with `0x` in front or without it. -/
structure ArgumentDigits where
  prefixed : Bool
  digits : List Char
  hex : ∀ c ∈ digits, (Hex.value? c).isSome = true
  even : digits.length % 2 = 0

/-- The whole text. -/
def ArgumentDigits.text (a : ArgumentDigits) : String :=
  String.ofList (hexPrefix a.prefixed ++ a.digits)

/-- What is sent are the digits of linked code and, right after them, those of the arguments. -/
theorem deploymentData_text (code : String) (a : ArgumentDigits) :
    Reconciliation.deploymentData code a.text
      = "0x" ++ String.ofList ((normalize code).toList ++ a.digits) := by
  unfold Reconciliation.deploymentData ArgumentDigits.text
  rw [dropStart_hexPrefix _ (ne_hexPrefix_of_hex a.hex), String.ofList_append,
    String.ofList_toList, String.append_assoc]

/-- The bytes of what is sent are those of the code and of the arguments. -/
theorem exists_sent_bytes {code : String} {bytes : List UInt8} (h : decode code = .ok bytes)
    (a : ArgumentDigits) :
    ∃ payload arguments, bytesOf? a.digits = some arguments
      ∧ Reconciliation.deploymentData code a.text = "0x" ++ payload
      ∧ bytesOfText payload = .ok (bytes ++ arguments) := by
  obtain ⟨arguments, readArguments⟩ := (exists_bytesOf?_iff a.digits).2 ⟨a.even, a.hex⟩
  refine ⟨_, arguments, readArguments, deploymentData_text code a, ?_⟩
  exact (bytesOfText_eq_ok_iff _ _).2
    (bytesOf?_append ((decode_eq_ok_iff code bytes).1 h) readArguments)

/-! ## §7. The whole -/

/-- What linking and decoding make of code that is not linked. -/
structure UnlinkedCode.ZeroFilled (u : UnlinkedCode) : Prop where
  /-- Normal code has no `0x`, forty zeros for each placeholder, and the digits as they are. -/
  normalized : normalize u.text = String.ofList u.linked
  /-- Every piece, filled or not, is where it was. -/
  inPlace : ∀ before p after, u.pieces = before ++ p :: after →
    StandsAt p.text (width before) u.body
      ∧ StandsAt p.linked (width before) (normalize u.text).toList
  /-- There are bytes exactly if the number of characters is even. -/
  decodes : (∃ bytes, decode u.text = .ok bytes) ↔ u.body.length % 2 = 0
  /-- There are half as many bytes. -/
  length : ∀ bytes, decode u.text = .ok bytes → bytes.length = u.body.length / 2
  /-- A placeholder that begins with a byte is twenty zero bytes at its place. -/
  zeroBytes : ∀ bytes before name wide oneLine after, decode u.text = .ok bytes →
    u.pieces = before ++ .placeholder name wide oneLine :: after → width before % 2 = 0 →
      StandsAt (List.replicate 20 0) (width before / 2) bytes

/-- **Placeholders become zeros in place, and code that has them is decoded as if it were linked.**
What is sent to deploy code that has bytes is `0x` and the digits of these bytes and of the
arguments. -/
theorem unlinked_decoded :
    (∀ u : UnlinkedCode, u.ZeroFilled)
    ∧ ∀ (code : String) (bytes : List UInt8) (a : ArgumentDigits), decode code = .ok bytes →
      ∃ payload arguments, bytesOf? a.digits = some arguments
        ∧ Reconciliation.deploymentData code a.text = "0x" ++ payload
        ∧ bytesOfText payload = .ok (bytes ++ arguments) := by
  constructor
  · intro u
    refine ⟨normalize_text u, ?_, u.exists_decode_iff, ?_, ?_⟩
    · intro before p after split
      exact UnlinkedCode.standsAt_piece split
    · intro bytes h
      exact UnlinkedCode.length_of_decode h
    · intro bytes before name wide oneLine after h split even
      exact UnlinkedCode.standsAt_zeros split rfl even h
  · intro code bytes a h
    exact exists_sent_bytes h a

/-- Code of two bytes with a library between them. -/
def libraryCode : UnlinkedCode where
  prefixed := true
  pieces := [.digit '6' rfl, .digit '0' rfl,
    .placeholder "$0123456789abcdef0123456789abcdef01$".toList (by decide) (by decide),
    .digit '5' rfl, .digit 'B' rfl]

/-- Arguments of two bytes. -/
def pairArguments : ArgumentDigits where
  prefixed := true
  digits := ['0', '0', 'f', 'F']
  hex := List.all_eq_true.1 rfl
  even := rfl

/-- The twenty bytes of the library are zero, and the arguments follow the code. -/
theorem unlinked_decoded_library :
    decode libraryCode.text = .ok (0x60 :: (List.replicate 20 0 ++ [0x5b]))
    ∧ StandsAt (List.replicate 20 0) 1 (0x60 :: (List.replicate 20 0 ++ [(0x5b : UInt8)]))
    ∧ ∃ payload, Reconciliation.deploymentData libraryCode.text pairArguments.text = "0x" ++ payload
        ∧ bytesOfText payload = .ok (0x60 :: (List.replicate 20 0 ++ [0x5b]) ++ [0x00, 0xff]) := by
  have decoded : decode libraryCode.text = .ok (0x60 :: (List.replicate 20 0 ++ [0x5b])) :=
    (UnlinkedCode.decode_text_iff libraryCode _).2 (by decide)
  have arguments : bytesOf? pairArguments.digits = some [0x00, 0xff] := by decide
  obtain ⟨filled, sent⟩ := unlinked_decoded
  refine ⟨decoded, ?_, ?_⟩
  · exact (filled libraryCode).zeroBytes _ [.digit '6' rfl, .digit '0' rfl] _ _ _ _ decoded rfl rfl
  · obtain ⟨payload, read, found, same, bytes⟩ := sent libraryCode.text _ pairArguments decoded
    cases arguments.symm.trans found
    exact ⟨payload, same, bytes⟩

end FuzzBundle.Bytecode
