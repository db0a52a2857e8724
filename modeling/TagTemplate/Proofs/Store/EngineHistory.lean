import TagTemplate.Proofs.Store.Slots
import TagTemplate.Proofs.Template.FixedPoint
import TagTemplate.Store.Engine

/-!
# What an engine gives

An engine with a memory cache gives what its history says, the steps that were done on it,
the latest first.  Under an id it keeps the template that was put there last.  If none was
put there, it keeps the text that was registered at the first request that the id had an
answer for, compiled (`Engine.kept?`).  Each step keeps the engine in line with its history
(`Engine.Tracks.run`).  The source is asked once for each of these texts, and once for each
request that fails for want of one (`Engine.loads_after`).
-/

namespace TagTemplate

namespace Engine

/-! ## Requests -/

/-- The id that a step requests, and what it answers to the template or the error. -/
def Step.request? : Step → Option (Text × (Except Error CompiledTemplate → Answer))
  | .compiled id => some (id, .template)
  | .format id data renderer =>
      some (id, fun result => .output (result.bind (renderer.onData data)))
  | _ => none

def Step.requested? (step : Step) : Option Text :=
  step.request?.map Prod.fst

theorem run_of_request {κ : Type} [TemplateCache κ] (engine : Engine κ) {step : Step} {id : Text}
    {reply : Except Error CompiledTemplate → Answer} (h : step.request? = some (id, reply)) :
    engine.run step = (reply (engine.compiled id).1, (engine.compiled id).2) := by
  cases step with
  | compiled other =>
      cases h
      rfl
  | format other data renderer =>
      cases h
      simp only [run, format]
      rcases engine.compiled id with ⟨_ | _, next⟩ <;> rfl
  | _ => cases h

theorem run_of_requested {κ : Type} [TemplateCache κ] (engine : Engine κ) {step : Step} {id : Text}
    (h : step.requested? = some id) : (engine.run step).2 = (engine.compiled id).2 := by
  obtain ⟨⟨other, reply⟩, hrequest, rfl⟩ := Option.map_eq_some_iff.1 h
  rw [run_of_request engine hrequest]

section

variable {engine : Engine MemoryCache} {id : Text}

theorem compiled_of_hit {hit : CompiledTemplate} (h : engine.cache.get? id = some hit) :
    engine.compiled id = (.ok hit, engine) := by
  simp only [compiled, MemoryCache.getOrCompile_of_hit h]

theorem compiled_of_text {text : Text} (h : engine.cache.get? id = none)
    (htext : engine.source.templates.find? id = some text) :
    engine.compiled id = (.ok ⟨id, engine.compiler.compile text⟩,
      { engine with
        source := (engine.source.load id).2
        cache := (engine.cache.reserve id).put id ⟨id, engine.compiler.compile text⟩ }) := by
  have hcompile : compileFrom engine.compiler id (engine.cache.reserve id, engine.source) =
      (.ok ⟨id, engine.compiler.compile text⟩,
        (engine.cache.reserve id, (engine.source.load id).2)) := by
    simp only [compileFrom, Source.load, Source.find, htext]
  simp only [compiled, MemoryCache.getOrCompile_of_miss h hcompile]
  rfl

theorem compiled_of_missing (h : engine.cache.get? id = none)
    (hmissing : engine.source.templates.find? id = none) :
    engine.compiled id = (.error (.templateNotFound id),
      { engine with
        source := (engine.source.load id).2
        cache := engine.cache.reserve id }) := by
  have hcompile : compileFrom engine.compiler id (engine.cache.reserve id, engine.source) =
      (.error (.templateNotFound id),
        (engine.cache.reserve id, (engine.source.load id).2)) := by
    simp only [compileFrom, Source.load, Source.find, hmissing]
  simp only [compiled, MemoryCache.getOrCompile_of_miss h hcompile]
  rfl

end

theorem templates_compiled (engine : Engine MemoryCache) (id : Text) :
    (engine.compiled id).2.source.templates = engine.source.templates := by
  cases hget : engine.cache.get? id with
  | some hit => rw [compiled_of_hit hget]
  | none =>
      cases hfind : engine.source.templates.find? id with
      | some text =>
          rw [compiled_of_text hget hfind]
          rfl
      | none =>
          rw [compiled_of_missing hget hfind]
          rfl

/-- A request keeps something only where nothing was kept. -/
theorem get?_compiled (engine : Engine MemoryCache) (id other : Text) :
    (engine.compiled id).2.cache.get? other =
      (engine.cache.get? other).or (if id = other then
        (engine.source.templates.find? other).map fun text =>
          ⟨other, engine.compiler.compile text⟩
      else none) := by
  by_cases heq : id = other
  · subst heq
    rw [if_pos rfl]
    cases hget : engine.cache.get? id with
    | some hit => rw [compiled_of_hit hget, hget, Option.some_or]
    | none =>
        cases hfind : engine.source.templates.find? id with
        | some text =>
            rw [compiled_of_text hget hfind, MemoryCache.get?_put, if_pos rfl]
            rfl
        | none =>
            rw [compiled_of_missing hget hfind, MemoryCache.get?_reserve, hget]
            rfl
  · rw [if_neg heq, Option.or_none]
    cases hget : engine.cache.get? id with
    | some hit => rw [compiled_of_hit hget]
    | none =>
        cases hfind : engine.source.templates.find? id with
        | some text =>
            rw [compiled_of_text hget hfind, MemoryCache.get?_put, if_neg (Ne.symm heq),
              MemoryCache.get?_reserve]
        | none => rw [compiled_of_missing hget hfind, MemoryCache.get?_reserve]

theorem exists_compiled_eq_ok {engine : Engine MemoryCache} {id : Text}
    (h : ¬ (engine.cache.get? id = none ∧ engine.source.contains id = false)) :
    ∃ template, (engine.compiled id).1 = .ok template ∧
      (engine.compiled id).2.cache.get? id = some template := by
  cases hget : engine.cache.get? id with
  | some hit =>
      rw [compiled_of_hit hget]
      exact ⟨hit, rfl, hget⟩
  | none =>
      cases hfind : engine.source.templates.find? id with
      | some text =>
          rw [compiled_of_text hget hfind]
          refine ⟨_, rfl, ?_⟩
          rw [MemoryCache.get?_put, if_pos rfl]
      | none =>
          exfalso
          refine h ⟨hget, ?_⟩
          rw [Source.contains, Table.contains, hfind, Option.isSome_none]

/-! ## Histories -/

/-- An engine with a memory cache that nothing was done on yet. -/
def start (compiler : Compiler) (templates : Table Text) : Engine MemoryCache :=
  ⟨compiler, ⟨templates, 0⟩, MemoryCache.empty⟩

def after {κ : Type} [TemplateCache κ] (engine : Engine κ) (past : List Step) : Engine κ :=
  past.foldr (fun step engine => (engine.run step).2) engine

/-- What a step puts under an id from outside. -/
def Step.puts? (id : Text) : Step → Option CompiledTemplate
  | .put other template => if id = other then some template else none
  | _ => none

def Step.inserts? (id : Text) : Step → Option Text
  | .insert other text => if id = other then some text else none
  | _ => none

def lastPut? (id : Text) (past : List Step) : Option CompiledTemplate :=
  past.findSome? (Step.puts? id)

/-- The text that is registered for an id. -/
def registered? (templates : Table Text) (id : Text) (past : List Step) : Option Text :=
  (past.findSome? (Step.inserts? id)).or (templates.find? id)

/-- The text that was registered for an id at the first request for it that found one. -/
def firstText? (templates : Table Text) (id : Text) : List Step → Option Text
  | [] => none
  | step :: past =>
      (firstText? templates id past).or
        (if step.requested? = some id then registered? templates id past else none)

def kept? (compiler : Compiler) (templates : Table Text) (id : Text) (past : List Step) :
    Option CompiledTemplate :=
  (lastPut? id past).or
    ((firstText? templates id past).map fun text => ⟨id, compiler.compile text⟩)

theorem after_cons {κ : Type} [TemplateCache κ] (engine : Engine κ) (step : Step)
    (past : List Step) : engine.after (step :: past) = ((engine.after past).run step).2 := rfl

theorem runAll_append {κ : Type} [TemplateCache κ] (engine : Engine κ) (steps more : List Step) :
    engine.runAll (steps ++ more) =
      engine.runAll steps ++ (engine.after steps.reverse).runAll more := by
  induction steps generalizing engine with
  | nil => rfl
  | cons step steps ih =>
      have hafter : engine.after (step :: steps).reverse =
          (engine.run step).2.after steps.reverse := by
        simp only [after, List.foldr_reverse, List.foldl_cons]
      rw [hafter, List.cons_append, runAll, runAll, ih, List.cons_append]

theorem runAll_reverse_cons {κ : Type} [TemplateCache κ] (engine : Engine κ) (step : Step)
    (past : List Step) :
    engine.runAll (step :: past).reverse =
      engine.runAll past.reverse ++ [(engine.after past).run step] := by
  rw [List.reverse_cons, runAll_append, List.reverse_reverse]
  rfl

section

variable {compiler : Compiler} {templates : Table Text} {step : Step} {id : Text}

theorem Step.puts?_of_requested (h : step.requested? = some id) (other : Text) :
    step.puts? other = none := by
  cases step <;> first | rfl | cases h

theorem Step.inserts?_of_requested (h : step.requested? = some id) (other : Text) :
    step.inserts? other = none := by
  cases step <;> first | rfl | cases h

theorem lastPut?_cons (other : Text) (past : List Step) :
    lastPut? other (step :: past) = (step.puts? other).or (lastPut? other past) := by
  rw [lastPut?, List.findSome?_cons]
  cases step.puts? other <;> rfl

theorem registered?_cons (other : Text) (past : List Step) :
    registered? templates other (step :: past) =
      (step.inserts? other).or (registered? templates other past) := by
  rw [registered?, List.findSome?_cons]
  cases step.inserts? other <;> rfl

theorem kept?_cons (other : Text) (past : List Step) :
    kept? compiler templates other (step :: past) =
      (step.puts? other).or ((kept? compiler templates other past).or
        (if step.requested? = some other then
          (registered? templates other past).map fun text => ⟨other, compiler.compile text⟩
        else none)) := by
  rw [kept?, lastPut?_cons, firstText?, Option.map_or, Option.or_assoc, kept?, Option.or_assoc,
    apply_ite (Option.map _), Option.map_none]

end

/-! ## Engines and their histories -/

/-- The engine has what its history says. -/
structure Tracks (compiler : Compiler) (templates : Table Text) (past : List Step)
    (engine : Engine MemoryCache) : Prop where
  compiles : engine.compiler = compiler
  registered : ∀ id, engine.source.templates.find? id = registered? templates id past
  cached : ∀ id, engine.cache.get? id = kept? compiler templates id past

theorem tracks_start (compiler : Compiler) (templates : Table Text) :
    Tracks compiler templates [] (start compiler templates) where
  compiles := rfl
  registered := fun _ => rfl
  cached := fun _ => rfl

section

variable {compiler : Compiler} {templates : Table Text} {past : List Step}
  {engine : Engine MemoryCache}

theorem Tracks.compiled (h : Tracks compiler templates past engine) {step : Step} {id : Text}
    (hstep : step.requested? = some id) :
    Tracks compiler templates (step :: past) (engine.compiled id).2 where
  compiles := h.compiles
  registered := by
    intro other
    rw [templates_compiled, registered?_cons, Step.inserts?_of_requested hstep, Option.none_or,
      h.registered]
  cached := by
    intro other
    simp only [get?_compiled, kept?_cons, Step.puts?_of_requested hstep, Option.none_or, hstep,
      Option.some.injEq, h.compiles, h.cached, h.registered]

theorem Tracks.run (h : Tracks compiler templates past engine) (step : Step) :
    Tracks compiler templates (step :: past) (engine.run step).2 := by
  cases hstep : step.requested? with
  | some id =>
      rw [run_of_requested engine hstep]
      exact h.compiled hstep
  | none =>
      have hentry : ∀ other, kept? compiler templates other (step :: past) =
          (step.puts? other).or (engine.cache.get? other) := by
        intro other
        rw [kept?_cons, hstep, if_neg (by simp), Option.or_none, h.cached]
      refine ⟨?_, ?_, ?_⟩
      · cases step <;> first | exact h.compiles | cases hstep
      · intro other
        rw [registered?_cons, ← h.registered]
        cases step with
        | insert id text =>
            simp only [Engine.run, Source.insert, Table.find?_insert, Step.inserts?]
            split <;> rfl
        | compiled id => cases hstep
        | format id data renderer => cases hstep
        | _ => rfl
      · intro other
        rw [hentry]
        cases step with
        | put id template =>
            refine (MemoryCache.get?_put engine.cache id other template).trans ?_
            simp only [Step.puts?]
            split <;> rfl
        | compiled id => cases hstep
        | format id data renderer => cases hstep
        | _ => rfl

theorem tracks_after (compiler : Compiler) (templates : Table Text) (past : List Step) :
    Tracks compiler templates past ((start compiler templates).after past) := by
  induction past with
  | nil => exact tracks_start compiler templates
  | cons step past ih => exact ih.run step

end

/-! ## Loads -/

/-- The engine fails the step for want of a template. -/
def misses {κ : Type} [TemplateCache κ] (engine : Engine κ) (step : Step) : Bool :=
  match step.requested? with
  | none => false
  | some id =>
      match (engine.compiled id).1 with
      | .error (.templateNotFound _) => true
      | _ => false

/-- The number of steps in a history that the engine failed for want of a template. -/
def failures {κ : Type} [TemplateCache κ] (engine : Engine κ) : List Step → Nat
  | [] => 0
  | step :: past => engine.failures past + ((engine.after past).misses step).toNat

/-- The step requests the id and makes its entry, where there was none. -/
def Creates (engine : Engine MemoryCache) (id : Text) (step : Step) : Prop :=
  step.requested? = some id ∧ engine.cache.get? id = none ∧
    ((engine.run step).2.cache.get? id).isSome = true

/-- What is kept may be replaced, but does not go. -/
theorem isSome_get?_run {engine : Engine MemoryCache} {id : Text}
    (h : (engine.cache.get? id).isSome = true) (step : Step) :
    ((engine.run step).2.cache.get? id).isSome = true := by
  cases hstep : step.requested? with
  | some other =>
      rw [run_of_requested engine hstep, get?_compiled, Option.isSome_or, h, Bool.true_or]
  | none =>
      cases step with
      | put other template =>
          have hput := MemoryCache.get?_put engine.cache other id template
          refine (congrArg Option.isSome hput).trans ?_
          split
          · rfl
          · exact h
      | compiled other => cases hstep
      | format other data renderer => cases hstep
      | _ => exact h

theorem isSome_get?_after (engine : Engine MemoryCache) {id : Text} {past more : List Step}
    (h : ((engine.after past).cache.get? id).isSome = true) (hmore : past <:+ more) :
    ((engine.after more).cache.get? id).isSome = true := by
  induction more with
  | nil => rwa [List.suffix_nil.1 hmore] at h
  | cons step steps ih =>
      rcases List.suffix_cons_iff.1 hmore with rfl | hmore
      · exact h
      · exact isSome_get?_run (ih hmore) step

theorem loads_run_of_not_requested {κ : Type} [TemplateCache κ] (engine : Engine κ) {step : Step}
    (h : step.requested? = none) : (engine.run step).2.source.loads = engine.source.loads := by
  cases step <;> first | rfl | cases h

theorem exists_isSuffix_cons_iff {p : Step → List Step → Prop} {step : Step} {past : List Step} :
    (∃ other earlier, other :: earlier <:+ step :: past ∧ p other earlier) ↔
      p step past ∨ ∃ other earlier, other :: earlier <:+ past ∧ p other earlier := by
  constructor
  · rintro ⟨other, earlier, hsuffix, hp⟩
    rcases List.suffix_cons_iff.1 hsuffix with heq | hsuffix
    · cases heq
      exact Or.inl hp
    · exact Or.inr ⟨other, earlier, hsuffix, hp⟩
  · rintro (hp | ⟨other, earlier, hsuffix, hp⟩)
    · exact ⟨step, past, List.suffix_refl _, hp⟩
    · exact ⟨other, earlier, hsuffix.trans (List.suffix_cons step past), hp⟩

theorem creates_iff (engine : Engine MemoryCache) {step : Step} {id : Text}
    (h : step.requested? = some id) (other : Text) :
    engine.Creates other step ↔
      other = id ∧ engine.cache.get? id = none ∧
        (engine.source.templates.find? id).isSome = true := by
  constructor
  · rintro ⟨hother, hget, hkept⟩
    obtain rfl := Option.some.inj (hother.symm.trans h)
    rw [run_of_requested engine h, get?_compiled, if_pos rfl, hget, Option.none_or,
      Option.isSome_map] at hkept
    exact ⟨rfl, hget, hkept⟩
  · rintro ⟨rfl, hget, hfind⟩
    refine ⟨h, hget, ?_⟩
    rw [run_of_requested engine h, get?_compiled, if_pos rfl, hget, Option.none_or,
      Option.isSome_map]
    exact hfind

/-- A step loads once if it fails or makes an entry, and not otherwise. -/
theorem loads_run (engine : Engine MemoryCache) (step : Step) :
    ((∀ id, ¬ engine.Creates id step) ∧
      (engine.run step).2.source.loads = engine.source.loads + (engine.misses step).toNat) ∨
    ∃ id, (∀ other, engine.Creates other step ↔ other = id) ∧ engine.misses step = false ∧
      (engine.run step).2.source.loads = engine.source.loads + 1 := by
  cases hstep : step.requested? with
  | none =>
      left
      refine ⟨?_, ?_⟩
      · intro id hcreates
        rw [hcreates.1] at hstep
        cases hstep
      · rw [loads_run_of_not_requested engine hstep, misses, hstep]
        rfl
  | some id =>
      rw [run_of_requested engine hstep, misses, hstep]
      simp only [engine.creates_iff hstep]
      cases hget : engine.cache.get? id with
      | some hit =>
          left
          rw [compiled_of_hit hget]
          exact ⟨by simp, rfl⟩
      | none =>
          cases hfind : engine.source.templates.find? id with
          | some text =>
              right
              rw [compiled_of_text hget hfind]
              exact ⟨id, by simp, rfl, rfl⟩
          | none =>
              left
              rw [compiled_of_missing hget hfind]
              exact ⟨by simp, rfl⟩

theorem loads_after (engine : Engine MemoryCache) (past : List Step) :
    ∃ ids : Finset Text,
      (∀ id, id ∈ ids ↔ ∃ step earlier, step :: earlier <:+ past ∧
        (engine.after earlier).Creates id step) ∧
      (engine.after past).source.loads =
        engine.source.loads + engine.failures past + ids.card := by
  induction past with
  | nil =>
      refine ⟨∅, ?_, rfl⟩
      intro id
      simp
  | cons step past ih =>
      obtain ⟨ids, hids, hloads⟩ := ih
      rcases loads_run (engine.after past) step with ⟨hnone, hrun⟩ | ⟨id, hcreates, hmisses, hrun⟩
      · refine ⟨ids, ?_, ?_⟩
        · intro other
          rw [exists_isSuffix_cons_iff, hids]
          exact (or_iff_right (hnone other)).symm
        · rw [after_cons, hrun, hloads, failures]
          omega
      · -- Nothing was kept under the id before, so no earlier step created it.
        have hnew : id ∉ ids := by
          intro hmem
          obtain ⟨other, earlier, hsuffix, -, -, hkept⟩ := (hids id).1 hmem
          rw [← after_cons] at hkept
          have hstill := isSome_get?_after engine hkept hsuffix
          rw [((hcreates id).2 rfl).2.1] at hstill
          cases hstill
        refine ⟨insert id ids, ?_, ?_⟩
        · intro other
          rw [exists_isSuffix_cons_iff, Finset.mem_insert, hids, hcreates]
        · rw [after_cons, hrun, hloads, failures, hmisses, Finset.card_insert_of_notMem hnew]
          simp only [Bool.toNat_false]
          omega

/-! ## The law -/

/-- After any history, a request fails for want of a template exactly if nothing is kept under
the id and nothing is registered for it, and then nothing that can be seen of the cache
changes.  Otherwise it is answered with what was put last under the id, or else with the text
that was registered for the id at the first request that found one, compiled; and that is
kept, whether the data converts or not and whatever the renderer does with it.  The loads are
the requests that failed so and the ids whose entry was created by a request. -/
theorem answers_of_history (compiler : Compiler) (templates : Table Text) (past : List Step) :
    let engine := (start compiler templates).after past
    (∀ step, ((start compiler templates).runAll (step :: past).reverse).getLast? =
      some (engine.run step)) ∧
    (∀ step id reply, step.request? = some (id, reply) →
      let outcome := engine.run step
      (engine.cache.get? id = none ∧ engine.source.contains id = false →
        outcome.1 = reply (.error (.templateNotFound id)) ∧
        outcome.2.cache.size = engine.cache.size ∧
        ∀ other, outcome.2.cache.get? other = engine.cache.get? other) ∧
      (¬ (engine.cache.get? id = none ∧ engine.source.contains id = false) →
        ∃ template, kept? compiler templates id (step :: past) = some template ∧
          outcome.1 = reply (.ok template) ∧ outcome.2.cache.get? id = some template)) ∧
    ∃ ids : Finset Text,
      (∀ id, id ∈ ids ↔ ∃ step earlier, step :: earlier <:+ past ∧
        ((start compiler templates).after earlier).Creates id step) ∧
      engine.source.loads = (start compiler templates).failures past + ids.card := by
  intro engine
  refine ⟨?_, ?_, ?_⟩
  · intro step
    rw [runAll_reverse_cons, List.getLast?_concat]
  · intro step id reply hrequest outcome
    have hrequested : step.requested? = some id := by
      rw [Step.requested?, hrequest, Option.map_some]
    have houtcome : outcome = (reply (engine.compiled id).1, (engine.compiled id).2) :=
      run_of_request engine hrequest
    have htracks : Tracks compiler templates (step :: past) outcome.2 :=
      (tracks_after compiler templates past).run step
    constructor
    · rintro ⟨hget, hcontains⟩
      have hmissing : engine.source.templates.find? id = none := by
        simpa [Source.contains, Table.contains] using hcontains
      have hcache : ∀ other, outcome.2.cache.get? other = engine.cache.get? other := by
        intro other
        rw [houtcome, compiled_of_missing hget hmissing]
        exact MemoryCache.get?_reserve engine.cache id other
      refine ⟨?_, MemoryCache.size_congr hcache, hcache⟩
      rw [houtcome, compiled_of_missing hget hmissing]
    · intro hknown
      obtain ⟨template, hresult, hkept⟩ := exists_compiled_eq_ok hknown
      refine ⟨template, ?_, ?_, ?_⟩
      · rw [← htracks.cached id, houtcome, hkept]
      · rw [houtcome, hresult]
      · rw [houtcome, hkept]
  · obtain ⟨ids, hids, hloads⟩ := loads_after (start compiler templates) past
    refine ⟨ids, hids, ?_⟩
    rw [hloads]
    exact congrArg (· + ids.card) (Nat.zero_add _)

/-- A text that comes too late, since the first request found another one although its data did
not convert, and an id that nobody has a template for. -/
theorem answers_of_late_insert :
    let id := "t".toList
    let missing := "u".toList
    let templates := Table.ofList [(id, "old".toList)]
    let old : CompiledTemplate := ⟨id, Compiler.standard.compile "old".toList⟩
    let past : List Step :=
      [.insert id "new".toList, .format id none Renderer.echo, .compiled missing]
    let engine := (start Compiler.standard templates).after past
    (engine.run (.compiled id)).1 = .template (.ok old) ∧
      (engine.run (.format id none Renderer.echo)).1 = .output (.error .json) ∧
      (engine.run (.format id none Renderer.echo)).2.cache.get? id = some old ∧
      (engine.run (.compiled missing)).1 = .template (.error (.templateNotFound missing)) ∧
      (engine.run (.compiled missing)).2.cache.size = engine.cache.size := by
  intro id missing templates old past engine
  obtain ⟨-, hanswers, -⟩ := answers_of_history Compiler.standard templates past
  have hknown : ¬ (engine.cache.get? id = none ∧ engine.source.contains id = false) := by
    have hcontains : engine.source.contains id = true := rfl
    rintro ⟨-, hnot⟩
    rw [hcontains] at hnot
    cases hnot
  obtain ⟨template, hentry, hanswer, -⟩ := (hanswers (.compiled id) id .template rfl).2 hknown
  have hfirst : kept? Compiler.standard templates id (.compiled id :: past) = some old := rfl
  obtain rfl := Option.some.inj (hfirst.symm.trans hentry)
  obtain ⟨template, hentry', hformat, hkept⟩ :=
    (hanswers (.format id none Renderer.echo) id _ rfl).2 hknown
  have hstill : kept? Compiler.standard templates id (.format id none Renderer.echo :: past) =
      some old := rfl
  obtain rfl := Option.some.inj (hstill.symm.trans hentry')
  obtain ⟨hfails, hsize, -⟩ := (hanswers (.compiled missing) missing .template rfl).1 ⟨rfl, rfl⟩
  exact ⟨hanswer, hformat, hkept, hfails, hsize⟩

/-- The first request decides although its renderer refuses; the first one that succeeds finds
another text registered.  And a renderer may call a template missing that is kept. -/
theorem refused_request_decides :
    let id := "t".toList
    let templates := Table.ofList [(id, "old".toList)]
    let steps : List Step :=
      [.format id (some .null) Renderer.refuse, .insert id "new".toList, .compiled id]
    ((start Compiler.standard templates).runAll steps).map Prod.fst =
      [.output (.error (.render "cannot render t".toList)), .inserted,
        .template (.ok ⟨id, "old".toList⟩)] ∧
    registered? templates id (steps.take 2).reverse = some "new".toList ∧
    Compiler.standard.compile "new".toList = "new".toList ∧
    (((start Compiler.standard templates).after steps.reverse).run
        (.format id (some .null) fun template _ => .error (.templateNotFound template.id))).1 =
      .output (.error (.templateNotFound id)) := by
  have hold : Compiler.standard.compile "old".toList = "old".toList :=
    (Compiler.compile_eq_self_iff _).2 (Segments.tags_ofText_of_not_infix (by decide))
  have hnew : Compiler.standard.compile "new".toList = "new".toList :=
    (Compiler.compile_eq_self_iff _).2 (Segments.tags_ofText_of_not_infix (by decide))
  intro id templates steps
  refine ⟨?_, rfl, hnew, rfl⟩
  have hrun : ((start Compiler.standard templates).runAll steps).map Prod.fst =
      [.output (.error (.render "cannot render t".toList)), .inserted,
        .template (.ok ⟨id, Compiler.standard.compile "old".toList⟩)] := rfl
  rw [hrun, hold]

end Engine

end TagTemplate
