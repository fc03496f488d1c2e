/-
  FuzzBundle.Dict — maps from text to values, kept in ascending key order.

  Every map of this library is walked in the order of its keys, so the order is part of the type:
  a `Dict` is a list of entries together with the proof that the keys ascend strictly. Two
  dictionaries with the same entries are equal, and no key occurs twice.

  The operations are first given on bare entry lists (`Entries`), because values nested inside an
  inductive type cannot carry the proof; `Entries.Ascending` is the predicate they keep.

  Main statements: `Entries.get?_insert` (what an insertion changes and what it leaves),
  `Entries.ascending_insert` and `Dict.ext_get?` (a dictionary is determined by its look-ups).
-/

namespace FuzzBundle

/-! ## §1. Entry lists -/

/-- Keys with their values, in some order. -/
abbrev Entries (α : Type u) := List (String × α)

namespace Entries

variable {α : Type u} {β : Type v}

/-- The keys ascend strictly. -/
def Ascending (entries : Entries α) : Prop := entries.Pairwise (fun a b => a.1 < b.1)

instance (entries : Entries α) : Decidable entries.Ascending :=
  inferInstanceAs (Decidable (List.Pairwise _ _))

/-- The value of the first entry with this key. -/
def get? (entries : Entries α) (key : String) : Option α :=
  match entries with
  | [] => none
  | (k, v) :: rest => if k = key then some v else get? rest key

/-- Puts a value at its place in ascending entries, replacing the one there. -/
def insert (entries : Entries α) (key : String) (value : α) : Entries α :=
  match entries with
  | [] => [(key, value)]
  | (k, v) :: rest =>
    if key < k then (key, value) :: (k, v) :: rest
    else if k = key then (key, value) :: rest
    else (k, v) :: insert rest key value

/-- Inserts entries from left to right, so that of equal keys the last one stays. -/
def ofList (entries : List (String × α)) : Entries α :=
  entries.foldl (fun acc entry => insert acc entry.1 entry.2) []

@[simp] theorem get?_nil (key : String) : get? ([] : Entries α) key = none := rfl

theorem get?_cons (k : String) (v : α) (rest : Entries α) (key : String) :
    get? ((k, v) :: rest) key = if k = key then some v else get? rest key := rfl

theorem mem_of_get? {entries : Entries α} {key : String} {value : α}
    (h : get? entries key = some value) : (key, value) ∈ entries := by
  induction entries with
  | nil => simp at h
  | cons entry rest ih =>
    obtain ⟨k, v⟩ := entry
    rw [get?_cons] at h
    split at h
    · next hk => cases h; simp [hk]
    · exact List.mem_cons_of_mem _ (ih h)

theorem get?_of_mem {entries : Entries α} (hs : entries.Ascending) {key : String} {value : α}
    (h : (key, value) ∈ entries) : get? entries key = some value := by
  induction entries with
  | nil => simp at h
  | cons entry rest ih =>
    obtain ⟨k, v⟩ := entry
    have hs' := List.pairwise_cons.1 hs
    rw [get?_cons]
    rcases List.mem_cons.1 h with h | h
    · cases h; simp
    · have hlt := hs'.1 _ h
      have hne : k ≠ key := by
        intro he; subst he; exact String.lt_irrefl _ hlt
      simp [hne, ih hs'.2 h]

/-- Of ascending entries at most one has a given key. -/
theorem length_filter_key {entries : Entries α} (hs : entries.Ascending) (key : String) :
    (entries.filter (·.1 == key)).length ≤ 1 := by
  have ordered : (entries.filter (·.1 == key)).Pairwise fun a b => a.1 < b.1 := hs.filter _
  match filtered : entries.filter (·.1 == key) with
  | [] => rw [filtered]; exact Nat.zero_le 1
  | [_] => rw [filtered]; exact Nat.le_refl 1
  | a :: b :: more =>
    -- two entries of one key would be strictly ordered
    have named : ∀ entry ∈ entries.filter (·.1 == key), entry.1 = key :=
      fun entry h => beq_iff_eq.1 (List.mem_filter.1 h).2
    rw [filtered] at ordered named
    have less := (List.pairwise_cons.1 ordered).1 b List.mem_cons_self
    rw [named a List.mem_cons_self, named b (by simp)] at less
    exact absurd less (String.lt_irrefl key)

/-- Around an entry the keys before it are smaller and the keys after it are greater. -/
theorem Ascending.around {before after : Entries α} {entry : String × α}
    (hs : Ascending (before ++ entry :: after)) :
    (∀ e ∈ before, e.1 < entry.1) ∧ ∀ e ∈ after, entry.1 < e.1 := by
  obtain ⟨-, right, across⟩ := List.pairwise_append.1 hs
  exact ⟨fun e he => across e he entry List.mem_cons_self, (List.pairwise_cons.1 right).1⟩

theorem mem_insert {entries : Entries α} {key : String} {value : α} {entry : String × α}
    (h : entry ∈ insert entries key value) : entry = (key, value) ∨ entry ∈ entries := by
  induction entries with
  | nil => simpa [insert] using h
  | cons first rest ih =>
    obtain ⟨k, v⟩ := first
    rw [insert] at h
    split at h
    · simpa using h
    · split at h
      · rcases List.mem_cons.1 h with h | h
        · exact .inl h
        · exact .inr (List.mem_cons_of_mem _ h)
      · rcases List.mem_cons.1 h with h | h
        · exact .inr (by simp [h])
        · rcases ih h with h | h
          · exact .inl h
          · exact .inr (List.mem_cons_of_mem _ h)

theorem mem_of_mem_ofList {entries : List (String × α)} {entry : String × α}
    (h : entry ∈ ofList entries) : entry ∈ entries := by
  have step (rest : List (String × α)) (acc : Entries α) :
      entry ∈ rest.foldl (fun acc e => insert acc e.1 e.2) acc → entry ∈ acc ∨ entry ∈ rest := by
    induction rest generalizing acc with
    | nil => exact .inl
    | cons first rest ih =>
      intro he
      rcases ih _ he with he | he
      · rcases mem_insert he with he | he
        · exact .inr (by simp [he])
        · exact .inl he
      · exact .inr (List.mem_cons_of_mem first he)
  exact (step entries [] h).resolve_left (by simp)

/-- Insertion keeps the keys ascending. -/
theorem ascending_insert {entries : Entries α} (hs : entries.Ascending) (key : String)
    (value : α) : (insert entries key value).Ascending := by
  induction entries with
  | nil => simp [insert, Ascending]
  | cons first rest ih =>
    obtain ⟨k, v⟩ := first
    have hs' := List.pairwise_cons.1 hs
    rw [insert]
    split
    · next hlt =>
      refine List.pairwise_cons.2 ⟨?_, hs⟩
      intro entry he
      rcases List.mem_cons.1 he with he | he
      · subst he; exact hlt
      · exact String.lt_trans hlt (hs'.1 _ he)
    · next hnlt =>
      split
      · next heq =>
        subst heq
        exact List.pairwise_cons.2 ⟨hs'.1, hs'.2⟩
      · next hne =>
        refine List.pairwise_cons.2 ⟨?_, ih hs'.2⟩
        intro entry he
        rcases mem_insert he with he | he
        · subst he
          exact Std.lt_of_le_of_ne (String.not_lt.1 hnlt) hne
        · exact hs'.1 _ he

theorem ascending_ofList (entries : List (String × α)) : (ofList entries).Ascending := by
  have step : ∀ (rest : List (String × α)) (acc : Entries α), acc.Ascending →
      (rest.foldl (fun acc entry => insert acc entry.1 entry.2) acc).Ascending := by
    intro rest
    induction rest with
    | nil => exact fun _ h => h
    | cons entry rest ih => exact fun acc h => ih _ (ascending_insert h _ _)
  exact step entries [] List.Pairwise.nil

/-- An insertion changes the look-up of its own key and of no other. -/
theorem get?_insert {entries : Entries α} (hs : entries.Ascending) (key : String) (value : α)
    (k : String) : get? (insert entries key value) k = if key = k then some value
      else get? entries k := by
  induction entries with
  | nil => simp [insert, get?_cons]
  | cons first rest ih =>
    obtain ⟨k₀, v₀⟩ := first
    have hs' := List.pairwise_cons.1 hs
    rw [insert]
    split
    · next hlt => rw [get?_cons]
    · split
      · next heq =>
        subst heq
        rw [get?_cons, get?_cons]
        by_cases hk : k₀ = k <;> simp [hk]
      · next hne =>
        rw [get?_cons, get?_cons, ih hs'.2]
        by_cases hk : key = k
        · subst hk; simp [hne]
        · simp [hk]

/-- Where entries are chosen by their keys, a key that is chosen keeps its value. -/
theorem get?_filter (entries : Entries α) (p : String → Bool) (key : String) :
    get? (entries.filter fun entry => p entry.1) key
      = if p key = true then get? entries key else none := by
  induction entries with
  | nil => simp
  | cons entry rest ih =>
    obtain ⟨k, v⟩ := entry
    rw [List.filter_cons, get?_cons]
    by_cases hk : k = key
    · subst hk
      by_cases h : p k = true
      · simp [h, get?_cons]
      · simpa [h] using ih
    · by_cases h : p k = true
      · simp [h, hk, get?_cons, ih]
      · simp [h, hk, ih]

theorem get?_filter_ne (entries : Entries α) (key k : String) :
    get? (entries.filter fun entry => entry.1 != key) k
      = if key = k then none else get? entries k := by
  rw [get?_filter entries (· != key)]
  by_cases h : key = k
  · simp [h]
  · simp [h, Ne.symm h]

/-- Of two lists of entries the first one is asked first. -/
theorem get?_append (xs ys : Entries α) (key : String) :
    get? (xs ++ ys) key = (get? xs key).or (get? ys key) := by
  induction xs with
  | nil => rfl
  | cons entry rest ih =>
    obtain ⟨k, v⟩ := entry
    rw [List.cons_append, get?_cons, get?_cons, ih]
    split <;> rfl

theorem get?_eq_none {entries : Entries α} {key : String} (h : key ∉ entries.map Prod.fst) :
    get? entries key = none := by
  cases found : get? entries key with
  | none => rfl
  | some v => exact absurd (List.mem_map_of_mem (mem_of_get? found)) h

/-- Ascending entries are determined by their look-ups. -/
theorem ext_get? {xs ys : Entries α} (hx : xs.Ascending) (hy : ys.Ascending)
    (h : ∀ key, get? xs key = get? ys key) : xs = ys := by
  induction xs generalizing ys with
  | nil =>
    cases ys with
    | nil => rfl
    | cons y ys =>
      obtain ⟨k, v⟩ := y
      simpa [get?_cons] using h k
  | cons x xs ih =>
    cases ys with
    | nil =>
      obtain ⟨k, v⟩ := x
      simpa [get?_cons] using h k
    | cons y ys =>
      obtain ⟨k, v⟩ := x
      obtain ⟨k', v'⟩ := y
      have hx' := List.pairwise_cons.1 hx
      have hy' := List.pairwise_cons.1 hy
      have first : k = k' := by
        have hk := h k
        have hk' := h k'
        simp only [get?_cons, if_true] at hk hk'
        by_cases hne : k = k'
        · exact hne
        · rw [if_neg (Ne.symm hne)] at hk
          rw [if_neg hne] at hk'
          exact absurd (hx'.1 _ (mem_of_get? hk')) (String.lt_asymm (hy'.1 _ (mem_of_get? hk.symm)))
      subst first
      have value : v = v' := by simpa [get?_cons] using h k
      subst value
      have absent : ∀ {zs : Entries α}, (∀ z ∈ zs, k < z.1) → get? zs k = none := by
        intro zs hz
        cases hg : get? zs k with
        | none => rfl
        | some w => exact absurd (hz _ (mem_of_get? hg)) (String.lt_irrefl _)
      refine congrArg _ (ih hx'.2 hy'.2 fun key => ?_)
      by_cases hk : k = key
      · subst hk
        rw [absent hx'.1, absent hy'.1]
      · simpa [get?_cons, hk] using h key

/-- Of entries with different keys an insertion one after the other loses none. -/
theorem get?_ofList {entries : List (String × α)} (hd : (entries.map Prod.fst).Nodup)
    (key : String) : get? (ofList entries) key = get? entries key := by
  have step (rest : List (String × α)) (acc : Entries α) (hs : acc.Ascending)
      (hd : (rest.map Prod.fst).Nodup) :
      get? (rest.foldl (fun acc e => insert acc e.1 e.2) acc) key
        = (get? rest key).or (get? acc key) := by
    induction rest generalizing acc with
    | nil => rfl
    | cons first rest ih =>
      obtain ⟨k, v⟩ := first
      obtain ⟨new, hd⟩ := List.nodup_cons.1 hd
      rw [List.foldl_cons, ih _ (ascending_insert hs k v) hd, get?_insert hs, get?_cons]
      by_cases hk : k = key
      · subst hk
        -- the key does not come again, so what was just inserted stays
        simp [get?_eq_none new]
      · simp [hk]
  rw [ofList, step entries [] List.Pairwise.nil hd, get?_nil, Option.or_none]

/-- Whether entries ascend is decided by their keys. -/
theorem Ascending.of_keys {xs : Entries α} {ys : Entries β} (hs : xs.Ascending)
    (keys : ys.map Prod.fst = xs.map Prod.fst) : ys.Ascending := by
  have ordered : (xs.map Prod.fst).Pairwise (· < ·) := List.pairwise_map.2 hs
  rw [← keys] at ordered
  exact List.pairwise_map.1 ordered

theorem nodup_keys {entries : Entries α} (hs : entries.Ascending) :
    (entries.map Prod.fst).Nodup := by
  rw [List.Nodup, List.pairwise_map]
  refine hs.imp fun {a b} less same => ?_
  exact String.lt_irrefl b.1 (same ▸ less)

/-- Entries that ascend already are inserted in their order. -/
theorem ofList_of_ascending {entries : Entries α} (hs : entries.Ascending) :
    ofList entries = entries :=
  ext_get? (ascending_ofList entries) hs (get?_ofList (nodup_keys hs))

theorem ascending_map {entries : Entries α} (hs : entries.Ascending) (f : String → α → β) :
    Ascending (entries.map (fun entry => (entry.1, f entry.1 entry.2))) := by
  rw [Ascending, List.pairwise_map]
  exact hs

theorem get?_map (entries : Entries α) (f : String → α → β) (key : String) :
    get? (entries.map (fun entry => (entry.1, f entry.1 entry.2))) key
      = (get? entries key).map (f key) := by
  induction entries with
  | nil => rfl
  | cons entry rest ih =>
    obtain ⟨k, v⟩ := entry
    rw [List.map_cons, get?_cons, get?_cons, ih]
    by_cases hk : k = key
    · subst hk; simp
    · simp [hk]

end Entries

/-! ## §2. Dictionaries -/

/-- A map from text to values, its entries in ascending key order. -/
structure Dict (α : Type u) where
  entries : Entries α
  ascending : entries.Ascending := by decide
  deriving DecidableEq

namespace Dict

variable {α : Type u} {β : Type v}

/-- The dictionary without entries. -/
def empty : Dict α := ⟨[], List.Pairwise.nil⟩

instance : Inhabited (Dict α) := ⟨empty⟩

/-- The value of a key. -/
def get? (d : Dict α) (key : String) : Option α := d.entries.get? key

/-- Sets the value of a key. -/
def insert (d : Dict α) (key : String) (value : α) : Dict α :=
  ⟨d.entries.insert key value, Entries.ascending_insert d.ascending key value⟩

/-- The dictionary of a list of entries; of equal keys the last one stays. -/
def ofList (entries : List (String × α)) : Dict α :=
  ⟨Entries.ofList entries, Entries.ascending_ofList entries⟩

/-- The entries in ascending key order. -/
def toList (d : Dict α) : List (String × α) := d.entries

/-- The keys in ascending order. -/
def keys (d : Dict α) : List String := d.entries.map Prod.fst

/-- The values in the order of their keys. -/
def values (d : Dict α) : List α := d.entries.map Prod.snd

/-- Whether there is no entry. -/
def isEmpty (d : Dict α) : Bool := d.entries.isEmpty

/-- Applies a function to every value. -/
def map (f : String → α → β) (d : Dict α) : Dict β :=
  ⟨d.entries.map (fun entry => (entry.1, f entry.1 entry.2)),
    Entries.ascending_map d.ascending f⟩

/-- Removes a key. -/
def erase (d : Dict α) (key : String) : Dict α :=
  ⟨d.entries.filter (fun entry => entry.1 != key), List.Pairwise.filter _ d.ascending⟩

/-- Changes the value of a key if it has one, and nothing otherwise. -/
def modify (d : Dict α) (key : String) (f : α → α) : Dict α :=
  d.map (fun k v => if k = key then f v else v)

@[simp] theorem get?_empty (key : String) : (empty : Dict α).get? key = none := rfl

theorem get?_insert (d : Dict α) (key : String) (value : α) (k : String) :
    (d.insert key value).get? k = if key = k then some value else d.get? k :=
  Entries.get?_insert d.ascending key value k

theorem get?_erase (d : Dict α) (key k : String) :
    (d.erase key).get? k = if key = k then none else d.get? k :=
  Entries.get?_filter_ne d.entries key k

theorem get?_map (f : String → α → β) (d : Dict α) (key : String) :
    (d.map f).get? key = (d.get? key).map (f key) :=
  Entries.get?_map d.entries f key

@[simp] theorem keys_map (f : String → α → β) (d : Dict α) : (d.map f).keys = d.keys := by
  simp [keys, map, Function.comp_def]

/-- A dictionary is determined by its look-ups. -/
theorem ext_get? {d e : Dict α} (h : ∀ key, d.get? key = e.get? key) : d = e := by
  cases d with
  | mk xs hx => cases e with
    | mk ys hy =>
      cases Entries.ext_get? hx hy h
      rfl

theorem toList_inj {d e : Dict α} : d.toList = e.toList ↔ d = e := by
  constructor
  · intro same
    cases d
    cases e
    cases same
    rfl
  · exact congrArg toList

theorem mem_toList_iff {d : Dict α} {key : String} {value : α} :
    (key, value) ∈ d.toList ↔ d.get? key = some value :=
  ⟨Entries.get?_of_mem d.ascending, Entries.mem_of_get?⟩

end Dict

/-! ## §3. Values per contract -/

/-- Values by file and contract name. -/
abbrev ContractMap (α : Type u) := Dict (Dict α)

namespace ContractMap

variable {α : Type u}

/-- The value of a contract of a file. -/
def find? (m : ContractMap α) (file contract : String) : Option α :=
  (m.get? file).bind (·.get? contract)

/-- Sets the value of a contract of a file. -/
def put (m : ContractMap α) (file contract : String) (value : α) : ContractMap α :=
  m.insert file (((m.get? file).getD Dict.empty).insert contract value)

/-- All entries by file, then by contract. -/
def flatten (m : ContractMap α) : List (String × String × α) :=
  m.toList.flatMap fun entry => entry.2.toList.map fun inner => (entry.1, inner.1, inner.2)

theorem find?_put (m : ContractMap α) (file contract : String) (value : α) (f c : String) :
    (m.put file contract value).find? f c
      = if file = f ∧ contract = c then some value else m.find? f c := by
  unfold find? put
  rw [Dict.get?_insert]
  by_cases hf : file = f
  · subst hf
    simp only [if_true, Option.bind_some, Dict.get?_insert, true_and]
    by_cases hc : contract = c
    · simp [hc]
    · cases h : m.get? file <;> simp [hc]
  · simp [hf]

theorem find?_map {β : Type v} (m : ContractMap α) (g : α → β) (file contract : String) :
    find? (m.map fun _ contracts => contracts.map fun _ => g) file contract
      = (m.find? file contract).map g := by
  unfold find?
  rw [Dict.get?_map]
  cases m.get? file with
  | none => rfl
  | some contracts => exact Dict.get?_map (fun _ => g) contracts contract

end ContractMap

end FuzzBundle
