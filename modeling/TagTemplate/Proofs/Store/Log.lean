import TagTemplate.Proofs.Store.Slots

/-!
# The log of a memory cache

A log holds what happened to a cache, the latest first, down to the requests that recipes
make.  From it one can tell what is kept under an id, the template stored last
(`Log.latest?`), and which compilations have not ended (`Log.pending`).  Running a recipe
adds to the log and leaves the pending compilations as they were, and a cache that keeps
what was stored last does so afterwards.
-/

namespace TagTemplate

namespace CacheEvent

/-- What an event stores, and under which id. -/
def stores? : CacheEvent → Option (Text × CompiledTemplate)
  | .ended id (.ok compiled) => some (id, compiled)
  | .stored id compiled => some (id, compiled)
  | _ => none

def askedId? : CacheEvent → Option Text
  | .asked id => some id
  | _ => none

def succeeds (id : Text) : CacheEvent → Bool
  | .ended other (.ok _) => other == id
  | _ => false

end CacheEvent

namespace Log

/-- What was stored, the latest first. -/
def stores (log : Log) : List (Text × CompiledTemplate) :=
  log.filterMap CacheEvent.stores?

/-- The template that was stored last under an id. -/
def latest? (id : Text) (log : Log) : Option CompiledTemplate :=
  (stores log).lookup id

def storedIds (log : Log) : Finset Text :=
  ((stores log).map Prod.fst).toFinset

/-- The ids whose compilation has not ended, the innermost first. -/
def pending : Log → List Text
  | [] => []
  | .began id :: past => id :: pending past
  | .ended _ _ :: past => (pending past).tail
  | _ :: past => pending past

/-- No id is asked for while it is compiled. -/
def NoReentry : Log → Prop
  | [] => True
  | event :: past => (∀ id ∈ event.askedId?, id ∉ pending past) ∧ NoReentry past

instance decidableNoReentry : (log : Log) → Decidable (NoReentry log)
  | [] => isTrue trivial
  | event :: past =>
      have := decidableNoReentry past
      inferInstanceAs (Decidable ((∀ id ∈ event.askedId?, id ∉ pending past) ∧ NoReentry past))

theorem latest?_cons_of_stores {event : CacheEvent} {other : Text} {compiled : CompiledTemplate}
    (h : event.stores? = some (other, compiled)) (id : Text) (past : Log) :
    latest? id (event :: past) = if id = other then some compiled else latest? id past := by
  simp only [latest?, stores, List.filterMap_cons, h, List.lookup_cons]
  by_cases heq : id = other
  · simp [heq]
  · have hne : (id == other) = false := beq_eq_false_iff_ne.2 heq
    simp [heq, hne]

@[simp] theorem latest?_cons_of_stores_eq_none {event : CacheEvent} (h : event.stores? = none)
    (id : Text) (past : Log) : latest? id (event :: past) = latest? id past := by
  simp only [latest?, stores, List.filterMap_cons, h]

theorem mem_storedIds {id : Text} {log : Log} :
    id ∈ storedIds log ↔ (latest? id log).isSome = true := by
  simp only [storedIds, latest?, List.mem_toFinset]
  induction stores log with
  | nil => simp
  | cons entry entries ih =>
      rw [List.map_cons, List.mem_cons, ih, List.lookup_cons]
      by_cases heq : id = entry.1
      · simp [heq]
      · have hne : (id == entry.1) = false := beq_eq_false_iff_ne.2 heq
        simp [heq, hne]

theorem storedIds_subset {log more : Log} (h : log <:+ more) : storedIds log ⊆ storedIds more := by
  intro id hid
  rw [storedIds, List.mem_toFinset] at hid ⊢
  exact List.map_subset Prod.fst (h.filterMap CacheEvent.stores?).subset hid

theorem NoReentry.of_isSuffix {log more : Log} (h : NoReentry more) (hlog : log <:+ more) :
    NoReentry log := by
  induction more with
  | nil =>
      rw [List.suffix_nil.1 hlog]
      exact h
  | cons event past ih =>
      rcases List.suffix_cons_iff.1 hlog with rfl | hlog
      · exact h
      · exact ih h.2 hlog

end Log

/-! ## Running recipes on memory caches -/

section

variable {ω : Type} [Observer ω] {R : MemoryCache × ω → MemoryCache × ω → Prop}

/-- What a request on a memory cache can do: the template is there and only the events are
told, or the compilation is run with the slot set up. -/
theorem request_rel {id : Text} {compile : Action (MemoryCache × ω) CompiledTemplate}
    (hit : ∀ cache world compiled, cache.get? id = some compiled →
      R (cache, world) (cache,
        Observer.note (.answered id (.ok compiled)) (Observer.note (.asked id) world)))
    (miss : ∀ cache world result cache' world', cache.get? id = none →
      R (cache.reserve id, Observer.note (.began id) (Observer.note (.asked id) world))
        (cache', world') →
      R (cache, world) (settle cache' id result,
        Observer.note (.answered id result) (Observer.note (.ended id result) world')))
    (hcompile : ∀ state, R state (compile state).2) (state : MemoryCache × ω) :
    R state (request id compile state).2 := by
  obtain ⟨cache, world⟩ := state
  cases hget : cache.get? id with
  | some compiled =>
      rw [MemoryCache.request_of_hit hget]
      exact hit cache world compiled hget
  | none =>
      have hstate := hcompile
        (cache.reserve id, Observer.note (.began id) (Observer.note (.asked id) world))
      rcases hrun : compile
        (cache.reserve id, Observer.note (.began id) (Observer.note (.asked id) world))
        with ⟨result, cache', world'⟩
      rw [hrun] at hstate
      rw [MemoryCache.request_of_miss hget hrun]
      exact miss cache world result cache' world' hget hstate

/-- A relation that what a request does keeps, given that its compilation does, relates the
states before and after any recipe. -/
theorem Recipe.run_rel (refl : ∀ state, R state state)
    (trans : ∀ {state next last}, R state next → R next last → R state last)
    (hit : ∀ id cache world compiled, cache.get? id = some compiled →
      R (cache, world) (cache,
        Observer.note (.answered id (.ok compiled)) (Observer.note (.asked id) world)))
    (miss : ∀ id cache world result cache' world', cache.get? id = none →
      R (cache.reserve id, Observer.note (.began id) (Observer.note (.asked id) world))
        (cache', world') →
      R (cache, world) (settle cache' id result,
        Observer.note (.answered id result) (Observer.note (.ended id result) world')))
    (recipe : Recipe) (state : MemoryCache × ω) : R state (recipe.run state).2 := by
  induction recipe generalizing state with
  | fail error => exact refl state
  | give compiled => exact refl state
  | ask id recipe next ih ihnext =>
      have hrequest := request_rel (hit id) (miss id) ih state
      simp only [Recipe.run]
      rcases hrun : request id recipe.run state with ⟨_ | compiled, state'⟩
      · rw [hrun] at hrequest
        exact hrequest
      · rw [hrun] at hrequest
        exact trans hrequest (ihnext compiled state')

end

end TagTemplate
