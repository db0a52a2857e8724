import TagTemplate.Text.Basic

/-!
# Tables keyed by texts

A table gives values to finitely many texts.  Its entries stand in the order of
their keys, character by character by code point, so a table is determined by what
it gives to each key.  The main statements say what `find?` sees after a write.
-/

namespace TagTemplate

/-- Finitely many texts with their values, in the order of the texts. -/
structure Table (α : Type) where
  entries : List (Text × α)
  sorted : entries.Pairwise fun left right => left.1 < right.1

namespace Table

variable {α β : Type}

/-- Writes an entry into a list of entries, at its place in the order. -/
def insertEntry (key : Text) (value : α) : List (Text × α) → List (Text × α)
  | [] => [(key, value)]
  | (other, previous) :: rest =>
      if key = other then (key, value) :: rest
      else if key < other then (key, value) :: (other, previous) :: rest
      else (other, previous) :: insertEntry key value rest

theorem mem_insertEntry {key : Text} {value : α} {entries : List (Text × α)}
    {entry : Text × α} (h : entry ∈ insertEntry key value entries) :
    entry = (key, value) ∨ entry ∈ entries := by
  induction entries with
  | nil => simpa [insertEntry] using h
  | cons head rest ih =>
      obtain ⟨other, previous⟩ := head
      simp only [insertEntry] at h
      split at h
      · simp only [List.mem_cons] at h ⊢
        rcases h with h | h <;> simp [h]
      · split at h
        · simpa using h
        · simp only [List.mem_cons] at h ⊢
          rcases h with h | h
          · exact Or.inr (Or.inl h)
          · rcases ih h with h | h <;> simp [h]

theorem insertEntry_sorted (key : Text) (value : α) {entries : List (Text × α)}
    (h : entries.Pairwise fun left right => left.1 < right.1) :
    (insertEntry key value entries).Pairwise fun left right => left.1 < right.1 := by
  induction entries with
  | nil => simp [insertEntry]
  | cons head rest ih =>
      obtain ⟨other, previous⟩ := head
      rw [List.pairwise_cons] at h
      simp only [insertEntry]
      split
      · rename_i heq
        subst heq
        exact List.pairwise_cons.2 h
      · rename_i hne
        split
        · rename_i hlt
          refine List.pairwise_cons.2 ⟨?_, List.pairwise_cons.2 h⟩
          intro entry hentry
          rcases List.mem_cons.1 hentry with hentry | hentry
          · simpa [hentry] using hlt
          · exact List.lt_trans hlt (h.1 entry hentry)
        · rename_i hnlt
          have hgt : other < key := by
            rcases Std.lt_trichotomy key other with hcase | hcase | hcase
            · exact absurd hcase hnlt
            · exact absurd hcase hne
            · exact hcase
          refine List.pairwise_cons.2 ⟨?_, ih h.2⟩
          intro entry hentry
          rcases mem_insertEntry hentry with hentry | hentry
          · simpa [hentry] using hgt
          · exact h.1 entry hentry

def valueIn? (key : Text) : List (Text × α) → Option α
  | [] => none
  | (other, value) :: rest => if key = other then some value else valueIn? key rest

theorem valueIn?_insertEntry (key wanted : Text) (value : α) (entries : List (Text × α)) :
    valueIn? wanted (insertEntry key value entries) =
      if wanted = key then some value else valueIn? wanted entries := by
  induction entries with
  | nil => simp [insertEntry, valueIn?]
  | cons head rest ih =>
      obtain ⟨other, previous⟩ := head
      simp only [insertEntry]
      split
      · rename_i heq
        subst heq
        by_cases h : wanted = key <;> simp [valueIn?, h]
      · rename_i hne
        split
        · simp [valueIn?]
        · simp only [valueIn?, ih]
          by_cases h : wanted = other
          · simp [h, Ne.symm hne]
          · simp [h]

def empty : Table α :=
  ⟨[], List.Pairwise.nil⟩

instance : Inhabited (Table α) := ⟨empty⟩

def insert (table : Table α) (key : Text) (value : α) : Table α :=
  ⟨insertEntry key value table.entries, insertEntry_sorted key value table.sorted⟩

def find? (table : Table α) (key : Text) : Option α :=
  valueIn? key table.entries

def contains (table : Table α) (key : Text) : Bool :=
  (table.find? key).isSome

def size (table : Table α) : Nat :=
  table.entries.length

/-- The table of the entries of a list; of two values for a key the later counts. -/
def ofList (entries : List (Text × α)) : Table α :=
  entries.foldl (fun table (key, value) => table.insert key value) empty

@[simp] theorem find?_empty (key : Text) : (empty : Table α).find? key = none := rfl

@[simp] theorem find?_insert (table : Table α) (key wanted : Text) (value : α) :
    (table.insert key value).find? wanted =
      if wanted = key then some value else table.find? wanted :=
  valueIn?_insertEntry key wanted value table.entries

end Table

end TagTemplate
