import TagTemplate.Proofs.Store.Slots

/-!
# Memory caches stand for maps

A memory cache sets a slot up before it compiles, a map cache writes an entry afterwards.
Nobody can tell the difference: the two give the same answers to all steps, run the same
compilations, and have the same size (`runAll_memory_eq_runAll_map`).  Two caches are alike
if they give the same for each id; empty slots, of compilations that failed or have not
ended, do not count.
-/

namespace TagTemplate

/-- The two caches keep the same template under each id. -/
def Alike (memory : MemoryCache) (map : MapCache) : Prop :=
  ∀ id, memory.get? id = TemplateCache.get? map id

theorem alike_empty : Alike MemoryCache.empty MapCache.empty :=
  fun _ => rfl

variable {memory : MemoryCache} {map : MapCache}

theorem Alike.reserve (h : Alike memory map) (id : Text) : Alike (memory.reserve id) map := by
  intro other
  rw [MemoryCache.get?_reserve]
  exact h other

theorem Alike.put (h : Alike memory map) (id : Text) (compiled : CompiledTemplate) :
    Alike (memory.put id compiled) (TemplateCache.put map id compiled) := by
  intro other
  rw [MemoryCache.get?_put, MapCache.get?_put, h other]

theorem Alike.settle (h : Alike memory map) (id : Text) (result : Except Error CompiledTemplate) :
    Alike (settle memory id result) (settle map id result) := by
  cases result with
  | ok compiled => exact h.put id compiled
  | error error => exact h

theorem Alike.size_eq (h : Alike memory map) : memory.size = map.size := by
  have hids : memory.ids = map.ids := by
    ext id
    rw [MemoryCache.mem_ids, MapCache.mem_ids, h id]
  rw [MemoryCache.size_eq_card, MapCache.size_eq_card, hids]

variable {ω α : Type}

/-- Two outcomes with the same result and the same world, on caches that are alike. -/
structure Matches (left : α × (MemoryCache × ω)) (right : α × (MapCache × ω)) : Prop where
  result : left.1 = right.1
  cache : Alike left.2.1 right.2.1
  world : left.2.2 = right.2.2

/-- On caches that are alike, the two actions have matching outcomes. -/
def Simulates (left : Action (MemoryCache × ω) α) (right : Action (MapCache × ω) α) : Prop :=
  ∀ memory map world, Alike memory map → Matches (left (memory, world)) (right (map, world))

theorem getOrCompile_simulates (id : Text) {left : Action (MemoryCache × ω) CompiledTemplate}
    {right : Action (MapCache × ω) CompiledTemplate} (h : Simulates left right) :
    Simulates (TemplateCache.getOrCompile id left) (TemplateCache.getOrCompile id right) := by
  intro memory map world halike
  cases hget : memory.get? id with
  | some hit =>
      have hmap : TemplateCache.get? map id = some hit := by rw [← halike id, hget]
      rw [MemoryCache.getOrCompile_of_hit hget, MapCache.getOrCompile_of_hit hmap]
      exact ⟨rfl, halike, rfl⟩
  | none =>
      have hmap : TemplateCache.get? map id = none := by rw [← halike id, hget]
      obtain ⟨hresult, hcache, hworld⟩ := h (memory.reserve id) map world (halike.reserve id)
      rcases hleft : left (memory.reserve id, world) with ⟨result, memory', world'⟩
      rcases hright : right (map, world) with ⟨result', map', world''⟩
      rw [hleft, hright] at hresult hcache hworld
      simp only at hresult hcache hworld
      subst hresult hworld
      rw [MemoryCache.getOrCompile_of_miss hget hleft, MapCache.getOrCompile_of_miss hmap hright]
      exact ⟨rfl, hcache.settle id result, rfl⟩

variable [Observer ω]

theorem compilation_simulates (id : Text) {left : Action (MemoryCache × ω) CompiledTemplate}
    {right : Action (MapCache × ω) CompiledTemplate} (h : Simulates left right) :
    Simulates (compilation id left) (compilation id right) := by
  intro memory map world halike
  obtain ⟨hresult, hcache, hworld⟩ := h memory map (Observer.note (.began id) world) halike
  simp only [compilation]
  exact ⟨hresult, hcache, by rw [hresult, hworld]⟩

theorem request_simulates (id : Text) {left : Action (MemoryCache × ω) CompiledTemplate}
    {right : Action (MapCache × ω) CompiledTemplate} (h : Simulates left right) :
    Simulates (request id left) (request id right) := by
  intro memory map world halike
  obtain ⟨hresult, hcache, hworld⟩ :=
    getOrCompile_simulates id (compilation_simulates id h) memory map
      (Observer.note (.asked id) world) halike
  simp only [request]
  exact ⟨hresult, hcache, by rw [hresult, hworld]⟩

/-- Recipes may ask for other templates to any depth; induction on the recipe. -/
theorem Recipe.run_simulates (recipe : Recipe) :
    Simulates (ω := ω) (Recipe.run recipe) (Recipe.run recipe) := by
  induction recipe with
  | fail error => exact fun _ _ _ halike => ⟨rfl, halike, rfl⟩
  | give compiled => exact fun _ _ _ halike => ⟨rfl, halike, rfl⟩
  | ask id recipe next ih ihnext =>
      intro memory map world halike
      obtain ⟨hresult, hcache, hworld⟩ := request_simulates id ih memory map world halike
      simp only [Recipe.run]
      rcases hleft : request id recipe.run (memory, world) with ⟨result, memory', world'⟩
      rcases hright : request id recipe.run (map, world) with ⟨result', map', world''⟩
      rw [hleft, hright] at hresult hcache hworld
      simp only at hresult hcache hworld
      subst hresult hworld
      cases result with
      | error error => exact ⟨rfl, hcache, rfl⟩
      | ok compiled => exact ihnext compiled memory' map' world' hcache

theorem CacheStep.run_matches (step : CacheStep) {memory : MemoryCache} {map : MapCache}
    (world : ω) (h : Alike memory map) :
    Matches (step.run (memory, world)) (step.run (map, world)) := by
  cases step with
  | get id =>
      have hget : TemplateCache.get? memory id = TemplateCache.get? map id := h id
      simp only [CacheStep.run, hget]
      exact ⟨rfl, h, rfl⟩
  | put id compiled => exact ⟨rfl, h.put id compiled, rfl⟩
  | getOrCompile id recipe =>
      obtain ⟨hresult, hcache, hworld⟩ :=
        request_simulates id recipe.run_simulates memory map world h
      simp only [CacheStep.run]
      exact ⟨by rw [hresult], hcache, hworld⟩

/-- From caches that are alike, all steps go alike. -/
theorem CacheStep.runAll_matches (steps : List CacheStep) {memory : MemoryCache} {map : MapCache}
    (world : ω) (h : Alike memory map) :
    List.Forall₂ Matches (CacheStep.runAll steps (memory, world))
      (CacheStep.runAll steps (map, world)) := by
  induction steps generalizing memory map world with
  | nil => exact .nil
  | cons step steps ih =>
      have hstep := step.run_matches world h
      have hworld := hstep.world
      refine .cons hstep ?_
      rcases hleft : step.run (memory, world) with ⟨answer, memory', world'⟩
      rcases hright : step.run (map, world) with ⟨answer', map', world''⟩
      rw [hleft, hright] at hstep hworld
      simp only at hworld
      subst hworld
      exact ih world' hstep.cache

/-- A memory cache refines a map: whatever steps are done on a cache that is empty at first,
and whatever recipes ask for and whether or not they fail, each step has the same answer on
both, as many compilations were run, and the sizes agree. -/
theorem CacheStep.runAll_memory_eq_runAll_map (steps : List CacheStep) :
    ((CacheStep.runAll steps (MemoryCache.empty, 0)).map
        fun (answer, (cache, compilations)) => (answer, compilations, cache.size)) =
      (CacheStep.runAll steps (MapCache.empty, 0)).map
        fun (answer, (cache, compilations)) => (answer, compilations, cache.size) := by
  have hmatches := CacheStep.runAll_matches steps (0 : Nat) alike_empty
  generalize CacheStep.runAll steps (MemoryCache.empty, 0) = left at hmatches ⊢
  generalize CacheStep.runAll steps (MapCache.empty, 0) = right at hmatches ⊢
  induction hmatches with
  | nil => rfl
  | @cons first first' _ _ hfirst _ ih =>
      obtain ⟨answer, memory, compilations⟩ := first
      obtain ⟨answer', map, compilations'⟩ := first'
      obtain ⟨hresult, hcache, hworld⟩ := hfirst
      simp only at hresult hcache hworld
      simp only [List.map_cons, ih, hresult, hworld, hcache.size_eq]

end TagTemplate
