import Mathlib.Data.List.Induction
import Mathlib.Data.List.Nodup
import TagTemplate.Table

/-!
# What tables give to keys

A table is what `find?` gives to each key (`Table.ext_find?`).  Of a list of writes the last
one for a key counts (`Table.find?_ofList_eq_getLast?`), so a table that overrides another is
asked first (`Table.find?_override`).
-/

namespace TagTemplate.Table

variable {α : Type} {entries : List (Text × α)} {key : Text} {value : α}

/-! ## Entries -/

theorem valueIn?_cons_self (key : Text) (value : α) (entries : List (Text × α)) :
    valueIn? key ((key, value) :: entries) = some value :=
  if_pos rfl

theorem mem_of_valueIn? (h : valueIn? key entries = some value) : (key, value) ∈ entries := by
  induction entries with
  | nil => cases h
  | cons entry entries ih =>
      rw [valueIn?] at h
      split at h
      · rename_i heq
        rw [heq, ← Option.some.inj h]
        exact List.mem_cons_self
      · exact List.mem_cons_of_mem entry (ih h)

theorem valueIn?_eq_some_iff (h : entries.Pairwise fun left right => left.1 < right.1) :
    valueIn? key entries = some value ↔ (key, value) ∈ entries := by
  refine ⟨mem_of_valueIn?, fun hmem => ?_⟩
  induction entries with
  | nil => cases hmem
  | cons head rest ih =>
      obtain ⟨hhead, hrest⟩ := List.pairwise_cons.1 h
      rcases List.mem_cons.1 hmem with rfl | hmem
      · exact valueIn?_cons_self _ _ _
      · have hne : key ≠ head.1 := by
          intro heq
          have hlt := hhead (key, value) hmem
          rw [heq] at hlt
          exact List.lt_irrefl head.1 hlt
        rw [valueIn?, if_neg hne]
        exact ih hrest hmem

theorem find?_eq_some_iff {table : Table α} :
    table.find? key = some value ↔ (key, value) ∈ table.entries :=
  valueIn?_eq_some_iff table.sorted

theorem nodup_keys (table : Table α) : (table.entries.map Prod.fst).Nodup := by
  rw [List.Nodup, List.pairwise_map]
  refine table.sorted.imp ?_
  intro left right hlt heq
  rw [heq] at hlt
  exact List.lt_irrefl right.1 hlt

/-- Two tables that give the same to each key are the same. -/
theorem ext_find? {table other : Table α} (h : ∀ key, table.find? key = other.find? key) :
    table = other := by
  have hmem : ∀ entry, entry ∈ table.entries ↔ entry ∈ other.entries := by
    rintro ⟨key, value⟩
    rw [← find?_eq_some_iff, ← find?_eq_some_iff, h]
  have hnodup : ∀ table : Table α, table.entries.Nodup :=
    fun table => List.Nodup.of_map Prod.fst table.nodup_keys
  have hperm : table.entries.Perm other.entries :=
    (List.perm_ext_iff_of_nodup (hnodup table) (hnodup other)).2 hmem
  have hentries : table.entries = other.entries := by
    refine hperm.eq_of_pairwise ?_ table.sorted other.sorted
    intro left right _ _ hlt hgt
    exact absurd (List.lt_trans hlt hgt) (List.lt_irrefl left.1)
  cases table
  cases other
  congr

/-! ## Tables of lists -/

/-- Of several writes for a key the last one counts, and it counts before the table. -/
theorem find?_foldl_insert (entries : List (Text × α)) (table : Table α) (key : Text) :
    (entries.foldl (fun table entry => table.insert entry.1 entry.2) table).find? key =
      (entries.reverse.lookup key).or (table.find? key) := by
  induction entries generalizing table with
  | nil => rfl
  | cons entry entries ih =>
      obtain ⟨other, text⟩ := entry
      rw [List.foldl_cons, ih, find?_insert, List.reverse_cons, List.lookup_append,
        Option.or_assoc]
      congr 1
      by_cases hkey : key = other
      · simp [hkey]
      · simp [hkey, beq_eq_false_iff_ne.2 hkey, List.lookup_cons]

/-- Of several entries for a key the last one counts. -/
theorem find?_ofList (entries : List (Text × α)) (key : Text) :
    (ofList entries).find? key = entries.reverse.lookup key := by
  rw [ofList, find?_foldl_insert entries empty, find?_empty, Option.or_none]

theorem mem_of_find?_ofList (h : (ofList entries).find? key = some value) :
    (key, value) ∈ entries := by
  rw [find?_ofList, List.lookup_eq_some_iff] at h
  obtain ⟨front, back, heq, -⟩ := h
  rw [← List.mem_reverse, heq]
  exact List.mem_append_right front List.mem_cons_self

theorem find?_ofList_of_mem (hkeys : (entries.map Prod.fst).Nodup) (h : (key, value) ∈ entries) :
    (ofList entries).find? key = some value := by
  rw [find?_ofList, List.lookup_eq_some_iff]
  obtain ⟨front, back, rfl⟩ := List.append_of_mem h
  refine ⟨back.reverse, front.reverse, by simp, ?_⟩
  rintro ⟨other, text⟩ hmem
  rw [List.map_append, List.map_cons, List.nodup_append] at hkeys
  have hnot : key ∉ back.map Prod.fst := (List.nodup_cons.1 hkeys.2.1).1
  rw [bne_iff_ne]
  rintro rfl
  exact hnot (List.mem_map_of_mem (List.mem_reverse.1 hmem))

theorem find?_ofList_of_not_mem (h : key ∉ entries.map Prod.fst) :
    (ofList entries).find? key = none := by
  rw [← Option.not_isSome_iff_eq_none, Option.isSome_iff_exists]
  rintro ⟨value, hvalue⟩
  exact h (List.mem_map_of_mem (mem_of_find?_ofList hvalue))

/-- The order of entries with different keys does not matter. -/
theorem find?_ofList_perm {other : List (Text × α)} (hkeys : (entries.map Prod.fst).Nodup)
    (h : entries.Perm other) (key : Text) :
    (ofList entries).find? key = (ofList other).find? key := by
  have hother := (h.map Prod.fst).nodup_iff.1 hkeys
  ext value
  constructor
  · intro hvalue
    exact find?_ofList_of_mem hother (h.mem_iff.1 (mem_of_find?_ofList hvalue))
  · intro hvalue
    exact find?_ofList_of_mem hkeys (h.mem_iff.2 (mem_of_find?_ofList hvalue))

/-- Entries for other keys do not matter either. -/
theorem find?_ofList_eq_getLast? (entries : List (Text × α)) (key : Text) :
    (ofList entries).find? key =
      (entries.filter fun entry => entry.1 = key).getLast?.map Prod.snd := by
  rw [find?_ofList]
  induction entries using List.reverseRecOn with
  | nil => rfl
  | append_singleton entries entry ih =>
      obtain ⟨other, value⟩ := entry
      rw [List.reverse_append, List.filter_append]
      by_cases hkey : other = key
      · simp [hkey]
      · have hne : (key == other) = false := beq_eq_false_iff_ne.2 (Ne.symm hkey)
        simpa [hkey, List.lookup_cons, hne] using ih

theorem find?_ofList_entries (table : Table α) (key : Text) :
    (ofList table.entries).find? key = table.find? key := by
  ext value
  constructor
  · intro h
    exact find?_eq_some_iff.2 (mem_of_find?_ofList h)
  · intro h
    exact find?_ofList_of_mem table.nodup_keys (find?_eq_some_iff.1 h)

/-! ## Tables over tables -/

/-- The table with the entries of another written over it. -/
def override (table other : Table α) : Table α :=
  other.entries.foldl (fun table entry => table.insert entry.1 entry.2) table

@[simp] theorem find?_override (table other : Table α) (key : Text) :
    (table.override other).find? key = (other.find? key).or (table.find? key) := by
  rw [override, find?_foldl_insert, ← find?_ofList, find?_ofList_entries]

theorem ofList_append (front back : List (Text × α)) :
    ofList (front ++ back) = (ofList front).override (ofList back) := by
  apply ext_find?
  intro key
  rw [find?_override, find?_ofList, find?_ofList, find?_ofList, List.reverse_append,
    List.lookup_append]

end TagTemplate.Table
