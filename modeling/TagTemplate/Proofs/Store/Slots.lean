import Mathlib.Data.Finset.Card
import TagTemplate.Proofs.Table
import TagTemplate.Store.Recipe

/-!
# What caches show of their slots

From outside, a memory cache is what `get?` gives for each id: setting up a slot cannot be
seen, and the size counts the ids that have a template (`MemoryCache.size_eq_card`).  A
request comes in two kinds.  Either the template is there and nothing changes, or the
recipe is followed with the slot set up, and the slot is filled if that succeeds.
-/

namespace TagTemplate

/-- What is kept once a compilation has ended: a failure leaves the cache as it is. -/
def settle {κ : Type} [TemplateCache κ] (cache : κ) (id : Text) :
    Except Error CompiledTemplate → κ
  | .ok compiled => TemplateCache.put cache id compiled
  | .error _ => cache

namespace MemoryCache

theorem get?_put (cache : MemoryCache) (id other : Text) (compiled : CompiledTemplate) :
    (cache.put id compiled).get? other =
      if other = id then some compiled else cache.get? other := by
  simp only [get?, put, Table.find?_insert]
  split <;> rfl

@[simp] theorem get?_reserve (cache : MemoryCache) (id other : Text) :
    (cache.reserve id).get? other = cache.get? other := by
  unfold reserve
  split
  · rfl
  · rename_i hmissing
    simp only [get?, Table.find?_insert]
    split
    · rename_i heq
      have hnone : cache.slots.find? id = none := by
        simpa [Table.contains] using hmissing
      rw [heq, hnone]
      rfl
    · rfl

def ids (cache : MemoryCache) : Finset Text :=
  ((cache.slots.entries.filter fun (_, slot) => slot.isSome).map Prod.fst).toFinset

theorem mem_ids {cache : MemoryCache} {id : Text} :
    id ∈ cache.ids ↔ (cache.get? id).isSome = true := by
  simp only [ids, List.mem_toFinset, List.mem_map, List.mem_filter, get?, Prod.exists,
    exists_and_right, exists_eq_right]
  constructor
  · rintro ⟨slot, hmem, hslot⟩
    rw [Table.find?_eq_some_iff.2 hmem]
    exact hslot
  · intro hsome
    cases hfind : cache.slots.find? id with
    | none =>
        rw [hfind] at hsome
        cases hsome
    | some slot =>
        rw [hfind] at hsome
        exact ⟨slot, Table.find?_eq_some_iff.1 hfind, hsome⟩

theorem size_eq_card (cache : MemoryCache) : cache.size = cache.ids.card := by
  have hnodup : ((cache.slots.entries.filter fun (_, slot) => slot.isSome).map Prod.fst).Nodup :=
    cache.slots.nodup_keys.sublist (List.filter_sublist.map Prod.fst)
  rw [ids, List.toFinset_card_of_nodup hnodup, List.length_map, size, List.countP_eq_length_filter]

/-- Only what can be seen of a cache is counted. -/
theorem size_congr {cache other : MemoryCache} (h : ∀ id, cache.get? id = other.get? id) :
    cache.size = other.size := by
  have hids : cache.ids = other.ids := by
    ext id
    rw [mem_ids, mem_ids, h id]
  rw [size_eq_card, size_eq_card, hids]

section

variable {ω : Type} {cache : MemoryCache} {id : Text}

theorem getOrCompile_of_hit {hit : CompiledTemplate} (h : cache.get? id = some hit)
    (compile : Action (MemoryCache × ω) CompiledTemplate) (world : ω) :
    TemplateCache.getOrCompile id compile (cache, world) = (.ok hit, (cache, world)) := by
  show getOrCompile id compile (cache, world) = _
  simp only [getOrCompile, h]

theorem getOrCompile_of_miss (h : cache.get? id = none)
    {compile : Action (MemoryCache × ω) CompiledTemplate} {world world' : ω}
    {result : Except Error CompiledTemplate} {cache' : MemoryCache}
    (hcompile : compile (cache.reserve id, world) = (result, (cache', world'))) :
    TemplateCache.getOrCompile id compile (cache, world) =
      (result, (settle cache' id result, world')) := by
  show getOrCompile id compile (cache, world) = _
  simp only [getOrCompile, h, hcompile]
  cases result <;> rfl

variable [Observer ω]

theorem request_of_hit {hit : CompiledTemplate} (h : cache.get? id = some hit)
    (compile : Action (MemoryCache × ω) CompiledTemplate) (world : ω) :
    request id compile (cache, world) =
      (.ok hit, (cache,
        Observer.note (.answered id (.ok hit)) (Observer.note (.asked id) world))) := by
  simp only [request, getOrCompile_of_hit h]

theorem request_of_miss (h : cache.get? id = none)
    {compile : Action (MemoryCache × ω) CompiledTemplate} {world world' : ω}
    {result : Except Error CompiledTemplate} {cache' : MemoryCache}
    (hcompile : compile (cache.reserve id,
      Observer.note (.began id) (Observer.note (.asked id) world)) = (result, (cache', world'))) :
    request id compile (cache, world) =
      (result, (settle cache' id result,
        Observer.note (.answered id result) (Observer.note (.ended id result) world'))) := by
  have hrun : compilation id compile (cache.reserve id, Observer.note (.asked id) world) =
      (result, (cache', Observer.note (.ended id result) world')) := by
    simp only [compilation, hcompile]
  simp only [request, getOrCompile_of_miss h hrun]

end

end MemoryCache

namespace MapCache

theorem get?_put (cache : MapCache) (id other : Text) (compiled : CompiledTemplate) :
    TemplateCache.get? (TemplateCache.put cache id compiled) other =
      if other = id then some compiled else TemplateCache.get? cache other :=
  Table.find?_insert cache.templates id other compiled

section

variable {ω : Type} {cache : MapCache} {id : Text}

theorem getOrCompile_of_hit {hit : CompiledTemplate} (h : TemplateCache.get? cache id = some hit)
    (compile : Action (MapCache × ω) CompiledTemplate) (world : ω) :
    TemplateCache.getOrCompile id compile (cache, world) = (.ok hit, (cache, world)) := by
  have hfind : cache.templates.find? id = some hit := h
  simp only [TemplateCache.getOrCompile, hfind]

theorem getOrCompile_of_miss (h : TemplateCache.get? cache id = none)
    {compile : Action (MapCache × ω) CompiledTemplate} {world world' : ω}
    {result : Except Error CompiledTemplate} {cache' : MapCache}
    (hcompile : compile (cache, world) = (result, (cache', world'))) :
    TemplateCache.getOrCompile id compile (cache, world) =
      (result, (settle cache' id result, world')) := by
  have hfind : cache.templates.find? id = none := h
  simp only [TemplateCache.getOrCompile, hfind, hcompile]
  cases result <;> rfl

end

def ids (cache : MapCache) : Finset Text :=
  (cache.templates.entries.map Prod.fst).toFinset

theorem mem_ids {cache : MapCache} {id : Text} :
    id ∈ cache.ids ↔ (TemplateCache.get? cache id).isSome = true := by
  have hget : TemplateCache.get? cache id = cache.templates.find? id := rfl
  simp only [ids, List.mem_toFinset, List.mem_map, Prod.exists, exists_and_right,
    exists_eq_right, hget, Option.isSome_iff_exists, Table.find?_eq_some_iff]

theorem size_eq_card (cache : MapCache) : cache.size = cache.ids.card := by
  rw [ids, List.toFinset_card_of_nodup cache.templates.nodup_keys, List.length_map]
  rfl

end MapCache

end TagTemplate
