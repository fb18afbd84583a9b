/-!
# Tables

A table holds at most one value for each key.  It is an association list in
which every insertion first removes the key, and the order of its entries
means nothing: whoever lists a table arranges the result.
-/

namespace ClusterOverlay

/-- Values by key. -/
structure Table (κ υ : Type) where
  entries : List (κ × υ)
  deriving Repr

namespace Table

variable {κ υ : Type} [DecidableEq κ]

/-- The table without entries. -/
def empty : Table κ υ := ⟨[]⟩

/-- The value of a key. -/
def find? (table : Table κ υ) (key : κ) : Option υ :=
  (table.entries.find? fun entry => entry.1 = key).map Prod.snd

/-- Whether a key has a value. -/
def contains (table : Table κ υ) (key : κ) : Bool :=
  (table.find? key).isSome

/-- Take away the value of a key. -/
def erase (table : Table κ υ) (key : κ) : Table κ υ :=
  ⟨table.entries.filter fun entry => entry.1 ≠ key⟩

/-- Give a key a value in place of any that it had. -/
def insert (table : Table κ υ) (key : κ) (value : υ) : Table κ υ :=
  ⟨(key, value) :: (table.erase key).entries⟩

/-- The keys that have a value. -/
def keys (table : Table κ υ) : List κ :=
  table.entries.map Prod.fst

/-- Number of entries. -/
def size (table : Table κ υ) : Nat :=
  table.entries.length

/-- The entries whose value passes a test. -/
def keep (table : Table κ υ) (test : υ → Bool) : Table κ υ :=
  ⟨table.entries.filter fun entry => test entry.2⟩

/-! ## Look-ups after changes -/

@[simp]
theorem find?_empty (key : κ) : (empty : Table κ υ).find? key = none :=
  rfl

@[simp]
theorem find?_insert_self (table : Table κ υ) (key : κ) (value : υ) :
    (table.insert key value).find? key = some value := by
  simp [insert, find?]

@[simp]
theorem find?_erase_self (table : Table κ υ) (key : κ) :
    (table.erase key).find? key = none := by
  simp [erase, find?]

theorem find?_erase_of_ne {table : Table κ υ} {key other : κ} (different : other ≠ key) :
    (table.erase key).find? other = table.find? other := by
  simp only [erase, find?, List.find?_filter]
  congr 1
  congr 1
  funext entry
  by_cases same : entry.1 = other
  · simp [same, different]
  · simp [same]

theorem find?_insert_of_ne {table : Table κ υ} {key other : κ} {value : υ}
    (different : other ≠ key) :
    (table.insert key value).find? other = table.find? other := by
  have step : (table.insert key value).find? other = (table.erase key).find? other := by
    simp [insert, find?, Ne.symm different]
  rw [step, find?_erase_of_ne different]

/-! ## Keys -/

theorem mem_keys_iff {table : Table κ υ} {key : κ} :
    key ∈ table.keys ↔ ∃ value, table.find? key = some value := by
  simp only [keys, List.mem_map, find?, Option.map_eq_some_iff]
  constructor
  · rintro ⟨entry, entryMem, rfl⟩
    cases found : table.entries.find? fun other => other.1 = entry.1 with
    | none => simpa using List.find?_eq_none.mp found entry entryMem
    | some other => exact ⟨other.2, other, rfl, rfl⟩
  · rintro ⟨value, entry, found, _⟩
    exact ⟨entry, List.mem_of_find?_eq_some found, by simpa using List.find?_some found⟩

/-- No key has two entries. -/
def Distinct (table : Table κ υ) : Prop :=
  table.keys.Nodup

omit [DecidableEq κ] in
theorem distinct_empty : (empty : Table κ υ).Distinct :=
  List.nodup_nil

theorem distinct_erase {table : Table κ υ} (distinct : table.Distinct) (key : κ) :
    (table.erase key).Distinct :=
  distinct.sublist (List.filter_sublist.map Prod.fst)

theorem distinct_insert {table : Table κ υ} (distinct : table.Distinct) (key : κ) (value : υ) :
    (table.insert key value).Distinct := by
  have absent : key ∉ (table.erase key).keys := by
    simp [mem_keys_iff]
  exact List.nodup_cons.mpr ⟨absent, distinct_erase distinct key⟩

omit [DecidableEq κ] in
theorem distinct_keep {table : Table κ υ} (distinct : table.Distinct) (test : υ → Bool) :
    (table.keep test).Distinct :=
  distinct.sublist (List.filter_sublist.map Prod.fst)

/-- Where no key has two entries, the values are exactly those of the entries. -/
theorem find?_eq_some_iff {table : Table κ υ} (distinct : table.Distinct) {key : κ} {value : υ} :
    table.find? key = some value ↔ (key, value) ∈ table.entries := by
  rcases table with ⟨entries⟩
  simp only [Distinct, keys, find?, Option.map_eq_some_iff] at distinct ⊢
  constructor
  · rintro ⟨entry, found, rfl⟩
    have same : entry.1 = key := by simpa using List.find?_some found
    exact same ▸ List.mem_of_find?_eq_some found
  · intro entryMem
    refine ⟨(key, value), ?_, rfl⟩
    induction entries with
    | nil => contradiction
    | cons entry later inductionHypothesis =>
        obtain ⟨fresh, restDistinct⟩ := List.nodup_cons.mp distinct
        rcases List.mem_cons.mp entryMem with rfl | laterMem
        · simp
        · have other : entry.1 ≠ key := by
            rintro rfl
            exact fresh (List.mem_map.mpr ⟨_, laterMem, rfl⟩)
          simpa [other] using inductionHypothesis restDistinct laterMem

/-- Sorting out values leaves a key its value or nothing. -/
theorem find?_keep {table : Table κ υ} (distinct : table.Distinct) (test : υ → Bool) (key : κ) :
    (table.keep test).find? key = (table.find? key).filter test := by
  apply Option.ext
  intro value
  rw [find?_eq_some_iff (distinct_keep distinct test), Option.filter_eq_some_iff,
    find?_eq_some_iff distinct]
  simp [keep]

end Table

end ClusterOverlay
