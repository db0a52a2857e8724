import TagTemplate.Proofs.Store.OneCompilation

/-!
# Compilations that fail

An error ends every compilation that is going on in a request, the innermost first, and
nothing else happens meanwhile (`Log.unwind`).  The compilations that had ended by then went
well, so what a failed request leaves in the cache is what these have stored, and the ids of
the ones that the error ended are as they were (`MemoryCache.failed_request`).
-/

namespace TagTemplate

/-- Part of a recipe that nothing has failed in: a request, or a compilation that gives a
template. -/
def CacheEvent.Smooth : CacheEvent → Prop
  | .asked _ | .began _ | .ended _ (.ok _) | .answered _ (.ok _) => True
  | .ended _ (.error _) | .answered _ (.error _) | .stored _ _ | .found _ _ => False

namespace Log

/-- The compilations of the ids, the innermost first, fail with the error of the first, and
those who asked for them get it. -/
def unwind (error : Error) (ids : List Text) : Log :=
  ids.reverse.flatMap fun id => [.answered id (.error error), .ended id (.error error)]

theorem unwind_append_singleton (error : Error) (ids : List Text) (id : Text) :
    unwind error (ids ++ [id]) =
      .answered id (.error error) :: .ended id (.error error) :: unwind error ids := by
  simp [unwind]

def completedIds (log : Log) : Finset Text :=
  (log.filterMap fun
    | .ended id (.ok _) => some id
    | _ => none).toFinset

theorem mem_completedIds {id : Text} {log : Log} :
    id ∈ completedIds log ↔ ∃ compiled, .ended id (.ok compiled) ∈ log := by
  simp only [completedIds, List.mem_toFinset, List.mem_filterMap]
  constructor
  · rintro ⟨event, hmem, hevent⟩
    split at hevent
    · obtain rfl := Option.some.inj hevent
      exact ⟨_, hmem⟩
    · cases hevent
  · rintro ⟨compiled, hmem⟩
    exact ⟨_, hmem, rfl⟩

/-! ## What a run tells -/

/-- What a run adds to a log, by its result: events in which nothing fails, and then, if it
fails, the failures of the compilations that have begun in the run and are going on. -/
def Adds (before after : Log) : Except Error CompiledTemplate → Prop
  | .ok _ => ∃ work : Log, (∀ event ∈ work, event.Smooth) ∧ after = work ++ before
  | .error error => ∃ (work : Log) (opened : List Text), (∀ event ∈ work, event.Smooth) ∧
      pending (work ++ before) = opened ++ pending before ∧
      after = unwind error opened ++ (work ++ before)

theorem Adds.answer_hit (before : Log) (id : Text) (compiled : CompiledTemplate) :
    Adds before (.answered id (.ok compiled) :: .asked id :: before) (.ok compiled) :=
  ⟨[.answered id (.ok compiled), .asked id], by simp [CacheEvent.Smooth], rfl⟩

/-- The error of a recipe ends the compilation of the id last. -/
theorem Adds.answer_error {before after : Log} {id : Text} {error : Error}
    (h : Adds (.began id :: .asked id :: before) after (.error error)) :
    ∃ (work : Log) (inner : List Text), (∀ event ∈ work, event.Smooth) ∧
      pending (work ++ before) = inner ++ id :: pending before ∧
      .answered id (.error error) :: .ended id (.error error) :: after =
        unwind error (inner ++ [id]) ++ (work ++ before) := by
  obtain ⟨work, inner, hwork, hpending, rfl⟩ := h
  refine ⟨work ++ [.began id, .asked id], inner, ?_, ?_, ?_⟩
  · simpa [CacheEvent.Smooth, or_imp, forall_and] using hwork
  · simpa [pending] using hpending
  · simp [unwind_append_singleton]

/-- A compilation adds what its recipe does, and its own begin and end. -/
theorem Adds.answer {before after : Log} {id : Text} {result : Except Error CompiledTemplate}
    (h : Adds (.began id :: .asked id :: before) after result) :
    Adds before (.answered id result :: .ended id result :: after) result := by
  cases result with
  | ok compiled =>
      obtain ⟨work, hwork, rfl⟩ := h
      refine ⟨.answered id (.ok compiled) :: .ended id (.ok compiled) ::
        (work ++ [.began id, .asked id]), ?_, by simp⟩
      simpa [CacheEvent.Smooth, or_imp, forall_and] using hwork
  | error error =>
      obtain ⟨work, inner, hwork, hpending, hlog⟩ := h.answer_error
      refine ⟨work, inner ++ [id], hwork, ?_, hlog⟩
      rw [hpending, List.append_assoc, List.singleton_append]

theorem Adds.trans {before middle after : Log} {compiled : CompiledTemplate}
    {result : Except Error CompiledTemplate} (h : Adds before middle (.ok compiled))
    (hpending : pending middle = pending before) (hnext : Adds middle after result) :
    Adds before after result := by
  obtain ⟨work, hwork, rfl⟩ := h
  cases result with
  | ok last =>
      obtain ⟨more, hmore, rfl⟩ := hnext
      refine ⟨more ++ work, ?_, by rw [List.append_assoc]⟩
      exact fun event hevent => (List.mem_append.1 hevent).elim (hmore event) (hwork event)
  | error error =>
      obtain ⟨more, opened, hmore, hopened, rfl⟩ := hnext
      refine ⟨more ++ work, opened, ?_, ?_, by rw [List.append_assoc]⟩
      · exact fun event hevent => (List.mem_append.1 hevent).elim (hmore event) (hwork event)
      · rw [List.append_assoc, hopened, hpending]

theorem adds_request {id : Text} {recipe : Recipe} {state : MemoryCache × Log}
    (h : ∀ begun : MemoryCache × Log, Adds begun.2 (recipe.run begun).2.2 (recipe.run begun).1) :
    Adds state.2 (request id recipe.run state).2.2 (request id recipe.run state).1 := by
  obtain ⟨cache, log⟩ := state
  cases hget : cache.get? id with
  | some compiled =>
      rw [MemoryCache.request_of_hit hget]
      exact Adds.answer_hit log id compiled
  | none =>
      have hbegun := h (cache.reserve id, .began id :: .asked id :: log)
      rcases hrun : recipe.run (cache.reserve id, .began id :: .asked id :: log)
        with ⟨result, cache', log'⟩
      rw [hrun] at hbegun
      rw [MemoryCache.request_of_miss hget hrun]
      exact hbegun.answer

end Log

open Log

theorem Recipe.run_adds (recipe : Recipe) (state : MemoryCache × Log) :
    Adds state.2 (recipe.run state).2.2 (recipe.run state).1 := by
  induction recipe generalizing state with
  | fail error => exact ⟨[], [], by simp, rfl, rfl⟩
  | give compiled => exact ⟨[], by simp, rfl⟩
  | ask id recipe next ih ihnext =>
      have hrequest : Adds state.2 (request id recipe.run state).2.2
          (request id recipe.run state).1 :=
        adds_request ih
      have hpending := (recipe.request_leads id state).pending
      simp only [Recipe.run]
      rcases hrun : request id recipe.run state with ⟨_ | compiled, state'⟩
      · rw [hrun] at hrequest
        exact hrequest
      · rw [hrun] at hrequest hpending
        exact hrequest.trans hpending (ihnext compiled state')

/-! ## What is stored by then -/

namespace Log

theorem latest?_append (id : Text) (more log : Log) :
    latest? id (more ++ log) = (latest? id more).or (latest? id log) := by
  simp only [latest?, stores, List.filterMap_append, List.lookup_append]

@[simp] theorem latest?_unwind (id : Text) (error : Error) (ids : List Text) :
    latest? id (unwind error ids) = none := by
  induction ids using List.reverseRecOn with
  | nil => rfl
  | append_singleton ids other ih =>
      rw [unwind_append_singleton, latest?_cons_of_stores_eq_none rfl,
        latest?_cons_of_stores_eq_none rfl, ih]

theorem storedIds_append (more log : Log) :
    storedIds (more ++ log) = storedIds more ∪ storedIds log := by
  simp only [storedIds, stores, List.filterMap_append, List.map_append, List.toFinset_append]

/-- Recipes store by compiling. -/
theorem storedIds_of_smooth {work : Log} (h : ∀ event ∈ work, event.Smooth) :
    storedIds work = completedIds work := by
  rw [storedIds, completedIds, stores, List.map_filterMap]
  congr 1
  refine List.filterMap_congr ?_
  intro event hevent
  have hsmooth := h event hevent
  cases event with
  | ended id result => cases result <;> rfl
  | stored id compiled => exact hsmooth.elim
  | _ => rfl

theorem latest?_of_smooth {work : Log} (h : ∀ event ∈ work, event.Smooth) {id : Text}
    (hid : id ∉ completedIds work) : latest? id work = none := by
  rwa [← storedIds_of_smooth h, mem_storedIds, Option.not_isSome_iff_eq_none] at hid

/-- Where a compilation only succeeds as long as nothing was stored under its id, what it gives
is there from then on. -/
theorem latest?_of_completed {work log : Log} (hwork : ∀ event ∈ work, event.Smooth)
    (hpermitted : ∀ event past, event :: past <:+ work ++ log → Permits past event)
    {id : Text} {compiled : CompiledTemplate} (hmem : .ended id (.ok compiled) ∈ work) :
    latest? id log = none ∧ latest? id (work ++ log) = some compiled := by
  induction work with
  | nil => cases hmem
  | cons event work ih =>
      have hhead : Permits (work ++ log) event := hpermitted event _ (List.suffix_refl _)
      have htail := ih (List.forall_mem_cons.1 hwork).2
        fun other past hpast => hpermitted other past (hpast.trans (List.suffix_cons _ _))
      rw [List.cons_append]
      rcases List.mem_cons.1 hmem with rfl | hmem
      · -- The first one: the rule says that nothing was stored before.
        have hnone : latest? id (work ++ log) = none := hhead
        rw [latest?_append, Option.or_eq_none_iff] at hnone
        rw [latest?_cons_of_stores rfl, if_pos rfl]
        exact ⟨hnone.2, rfl⟩
      · obtain ⟨hnone, hsome⟩ := htail hmem
        refine ⟨hnone, ?_⟩
        have hevent := (List.forall_mem_cons.1 hwork).1
        cases event with
        | ended other result =>
            cases result with
            | ok template =>
                have hother : latest? other (work ++ log) = none := hhead
                rw [latest?_cons_of_stores rfl, if_neg, hsome]
                rintro rfl
                rw [hsome] at hother
                cases hother
            | error error => exact hevent.elim
        | stored other template => exact hevent.elim
        | _ => exact hsome

/-- What a run that failed has stored. -/
structure Leaves (work before after : Log) : Prop where
  completed : ∀ id compiled, .ended id (.ok compiled) ∈ work →
    latest? id before = none ∧ latest? id after = some compiled
  others : ∀ id ∉ completedIds work, latest? id after = latest? id before
  card : (storedIds after).card = (storedIds before).card + (completedIds work).card

theorem leaves_unwind {work log : Log} (hwork : ∀ event ∈ work, event.Smooth)
    (hpermitted : ∀ event past, event :: past <:+ work ++ log → Permits past event)
    (error : Error) (ids : List Text) : Leaves work log (unwind error ids ++ (work ++ log)) where
  completed := by
    intro id compiled hmem
    rw [latest?_append, latest?_unwind, Option.none_or]
    exact latest?_of_completed hwork hpermitted hmem
  others := by
    intro id hid
    rw [latest?_append, latest?_unwind, latest?_append, latest?_of_smooth hwork hid,
      Option.none_or, Option.none_or]
  card := by
    have hnone : storedIds (unwind error ids) = ∅ := by
      ext id
      simp [mem_storedIds]
    have hdisjoint : Disjoint (completedIds work) (storedIds log) := by
      refine Finset.disjoint_left.2 ?_
      intro id hid hstored
      obtain ⟨compiled, hmem⟩ := mem_completedIds.1 hid
      rw [mem_storedIds, (latest?_of_completed hwork hpermitted hmem).1] at hstored
      cases hstored
    rw [storedIds_append, hnone, Finset.empty_union, storedIds_append, storedIds_of_smooth hwork,
      Finset.card_union_of_disjoint hdisjoint, Nat.add_comm]

end Log

/-! ## The law -/

/-- The state in which the recipe of an id without a template is followed. -/
def begun (id : Text) (state : MemoryCache × Log) : MemoryCache × Log :=
  (state.1.reserve id, .began id :: .asked id :: state.2)

section

variable {state : MemoryCache × Log} {id : Text}

theorem CacheStep.run_of_miss (recipe : Recipe) (h : state.1.get? id = none) :
    (CacheStep.getOrCompile id recipe).run state =
      let result := (recipe.run (begun id state)).1
      let (cache, log) := (recipe.run (begun id state)).2
      (.compiled result,
        (settle cache id result, .answered id result :: .ended id result :: log)) := by
  rcases hrun : recipe.run (begun id state) with ⟨result, cache, log⟩
  show CacheStep.run _ (state.1, state.2) = _
  simp only [CacheStep.run, MemoryCache.request_of_miss h hrun]
  rfl

/-- The recipe of an id stores nothing under it. -/
theorem Recipe.get?_run_begun (recipe : Recipe) (hagrees : Agrees state)
    (hreentry : NoReentry (recipe.run (begun id state)).2.2) :
    (recipe.run (begun id state)).2.1.get? id = state.1.get? id := by
  have hleads := recipe.run_leads (begun id state)
  calc (recipe.run (begun id state)).2.1.get? id
      = latest? id (recipe.run (begun id state)).2.2 := hleads.agrees (hagrees.begin id) id
    _ = latest? id state.2 := hleads.kept hreentry id List.mem_cons_self
    _ = state.1.get? id := (hagrees id).symm

theorem CacheStep.compiles_of_miss (recipe : Recipe) (h : state.1.get? id = none) :
    ((CacheStep.getOrCompile id recipe).run state).1 =
        .compiled (recipe.run (begun id state)).1 ∧
      (begun id state).2 <:+ ((CacheStep.getOrCompile id recipe).run state).2.2 := by
  rw [CacheStep.run_of_miss recipe h]
  exact ⟨rfl, (recipe.run_leads (begun id state)).grows.trans (isSuffix_cons_cons _ _ _)⟩

end

/-- In every run in which no id is asked for while it is compiled, a request that finds nothing
and whose recipe fails, at any depth, is answered with the error of the recipe.  Up to the
error nothing had failed, and then nothing happened but that the compilations that were going
on failed with it.  The id has no template afterwards; what was compiled before the error is
there, under ids that had no template; all other ids are as they were; the size grew by the
number of the ids that were compiled; and whoever asks for the id next has it compiled. -/
theorem MemoryCache.failed_request (steps : List CacheStep) (id : Text) (recipe : Recipe)
    (error : Error) :
    let state := CacheStep.after steps (MemoryCache.empty, ([] : Log))
    let outcome := (CacheStep.getOrCompile id recipe).run state
    NoReentry outcome.2.2 → state.1.get? id = none →
    (recipe.run (begun id state)).1 = .error error →
    outcome.1 = .compiled (.error error) ∧
    outcome.2.1.get? id = none ∧
    (∃ (work : Log) (inner : List Text), (∀ event ∈ work, event.Smooth) ∧
      pending (work ++ state.2) = inner ++ [id] ∧
      outcome.2.2 = unwind error (inner ++ [id]) ++ (work ++ state.2) ∧
      (∀ other compiled, .ended other (.ok compiled) ∈ work →
        state.1.get? other = none ∧ outcome.2.1.get? other = some compiled) ∧
      (∀ other ∉ completedIds work, outcome.2.1.get? other = state.1.get? other) ∧
      outcome.2.1.size = state.1.size + (completedIds work).card) ∧
    ∀ next : Recipe,
      let again := (CacheStep.getOrCompile id next).run outcome.2
      again.1 = .compiled (next.run (begun id outcome.2)).1 ∧
      (begun id outcome.2).2 <:+ again.2.2 := by
  intro state outcome hreentry hmiss herror
  have hagrees : Agrees state := CacheStep.agrees_after steps
  have hpending : pending state.2 = [] := (CacheStep.advances_after steps _).pending
  have hleads : Leads state outcome.2 := recipe.request_leads id state
  have hafter : Agrees outcome.2 := hleads.agrees hagrees
  have horderly : Orderly outcome.2.2 := by
    refine hleads.orderly hagrees hreentry ?_
    exact (CacheStep.advances_after steps _).orderly agrees_empty
      (hreentry.of_isSuffix hleads.grows) orderly_nil
  have houtcome : outcome = (.compiled (.error error), ((recipe.run (begun id state)).2.1,
      .answered id (.error error) :: .ended id (.error error) ::
        (recipe.run (begun id state)).2.2)) := by
    refine (CacheStep.run_of_miss recipe hmiss).trans ?_
    rw [herror]
    rfl
  have hnone : outcome.2.1.get? id = none := by
    rw [houtcome] at hreentry ⊢
    have hinside := hreentry.of_isSuffix (isSuffix_cons_cons _ _ _)
    rw [recipe.get?_run_begun hagrees hinside, hmiss]
  refine ⟨by rw [houtcome], hnone, ?_, fun next => CacheStep.compiles_of_miss next hnone⟩
  have hadds := recipe.run_adds (begun id state)
  rw [herror] at hadds
  obtain ⟨work, inner, hwork, hopened, hlog⟩ := hadds.answer_error
  replace hlog : outcome.2.2 = unwind error (inner ++ [id]) ++ (work ++ state.2) := by
    rw [houtcome]
    exact hlog
  have hpermitted : ∀ event past, event :: past <:+ work ++ state.2 → Permits past event := by
    intro event past hpast
    refine horderly.permitted event past (hpast.trans ?_)
    rw [hlog]
    exact List.suffix_append _ _
  have hleaves := leaves_unwind hwork hpermitted error (inner ++ [id])
  rw [← hlog] at hleaves
  refine ⟨work, inner, hwork, by rw [hopened, hpending], hlog, ?_, ?_, ?_⟩
  · intro other compiled hmem
    rw [hagrees other, hafter other]
    exact hleaves.completed other compiled hmem
  · intro other hother
    rw [hagrees other, hafter other]
    exact hleaves.others other hother
  · rw [hagrees.size_eq, hafter.size_eq]
    exact hleaves.card

/-- A page whose body fails: the header that it asked for before has been compiled and stays,
and neither the page nor the body has a template. -/
theorem MemoryCache.failed_request_of_nested_error :
    let header : CompiledTemplate := ⟨"header".toList, "<h1>".toList⟩
    let missing : Error := .templateNotFound "row".toList
    let page : Recipe := .ask header.id (.give header) fun _ =>
      .ask "body".toList (.ask "row".toList (.fail missing) .give) .give
    let state := CacheStep.after [.put "menu".toList ⟨"menu".toList, []⟩,
      .getOrCompile "row".toList (.fail missing)] (MemoryCache.empty, ([] : Log))
    let outcome := (CacheStep.getOrCompile "page".toList page).run state
    NoReentry outcome.2.2 ∧ state.1.get? "page".toList = none ∧
      (page.run (begun "page".toList state)).1 = .error missing ∧
      outcome.1 = .compiled (.error missing) ∧ outcome.2.1.get? "page".toList = none ∧
      outcome.2.1.get? header.id = some header ∧ outcome.2.1.get? "body".toList = none ∧
      outcome.2.1.size = state.1.size + 1 := by
  intro header missing page state outcome
  have hreentry : NoReentry outcome.2.2 := by decide +kernel
  have hmiss : state.1.get? "page".toList = none := by decide +kernel
  have herror : (page.run (begun "page".toList state)).1 = .error missing := by decide +kernel
  obtain ⟨hanswer, hnone, -⟩ :=
    MemoryCache.failed_request _ "page".toList page missing hreentry hmiss herror
  exact ⟨hreentry, hmiss, herror, hanswer, hnone, by decide +kernel, by decide +kernel,
    by decide +kernel⟩

end TagTemplate
