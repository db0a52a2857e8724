import TagTemplate.Proofs.Store.Log

/-!
# One compilation for each id

If no id is asked for while it is compiled, the log of a memory cache is `Orderly`: an id is
compiled only as long as nothing was stored under it, so at most one of its compilations
succeeds, and what was stored is found by everyone who looks or asks.  A recipe keeps the
log orderly because it stores nothing under the ids whose compilation it is part of
(`Recipe.run_leads`).
-/

namespace TagTemplate

open Log

/-! ## Orderly logs -/

/-- What may happen after what happened before. -/
def Permits (past : Log) : CacheEvent → Prop
  | .began id => latest? id past = none
  | .ended id _ => latest? id past = none
  | .found id hit => hit = latest? id past
  | _ => True

/-- Nothing is compiled that was stored, and what was stored is found. -/
structure Orderly (log : Log) : Prop where
  permitted : ∀ event past, event :: past <:+ log → Permits past event
  /-- Who asks for what was stored is answered before anything else happens. -/
  answered : ∀ id compiled past, latest? id past = some compiled → .asked id :: past <:+ log →
    .answered id (.ok compiled) :: .asked id :: past <:+ log

theorem orderly_nil : Orderly [] where
  permitted := by simp
  answered := by simp

theorem Orderly.cons {log : Log} {event : CacheEvent} (h : Orderly log)
    (hevent : Permits log event) (hasked : ∀ id, event = .asked id → latest? id log = none) :
    Orderly (event :: log) where
  permitted := by
    intro other past hpast
    rcases List.suffix_cons_iff.1 hpast with heq | hpast
    · obtain ⟨rfl, rfl⟩ := List.cons.inj heq
      exact hevent
    · exact h.permitted other past hpast
  answered := by
    intro id compiled past hlatest hpast
    rcases List.suffix_cons_iff.1 hpast with heq | hpast
    · obtain ⟨rfl, rfl⟩ := List.cons.inj heq
      rw [hasked id rfl] at hlatest
      cases hlatest
    · exact (h.answered id compiled past hlatest hpast).trans (List.suffix_cons event log)

theorem Orderly.hit {log : Log} {id : Text} {compiled : CompiledTemplate} (h : Orderly log)
    (hlatest : latest? id log = some compiled) :
    Orderly (.answered id (.ok compiled) :: .asked id :: log) where
  permitted := by
    intro event past hpast
    rcases List.suffix_cons_iff.1 hpast with heq | hpast
    · obtain ⟨rfl, rfl⟩ := List.cons.inj heq
      trivial
    · rcases List.suffix_cons_iff.1 hpast with heq | hpast
      · obtain ⟨rfl, rfl⟩ := List.cons.inj heq
        trivial
      · exact h.permitted event past hpast
  answered := by
    intro other stored past hstored hpast
    rcases List.suffix_cons_iff.1 hpast with heq | hpast
    · cases heq
    · rcases List.suffix_cons_iff.1 hpast with heq | hpast
      · obtain ⟨hid, rfl⟩ := List.cons.inj heq
        obtain rfl := CacheEvent.asked.inj hid
        obtain rfl := Option.some.inj (hlatest.symm.trans hstored)
        exact List.suffix_refl _
      · exact (h.answered other stored past hstored hpast).trans ⟨[_, _], rfl⟩

theorem stores?_of_succeeds {id : Text} {event : CacheEvent} (h : event.succeeds id = true) :
    ∃ compiled, event = .ended id (.ok compiled) := by
  cases event with
  | ended other result =>
      cases result with
      | ok compiled => exact ⟨compiled, by rw [eq_of_beq h]⟩
      | error error => cases h
  | _ => cases h

/-- Every success under the id is stored. -/
theorem countP_succeeds_eq_zero {id : Text} {log : Log} (h : latest? id log = none) :
    log.countP (CacheEvent.succeeds id) = 0 := by
  induction log with
  | nil => rfl
  | cons event past ih =>
      by_cases hevent : event.succeeds id = true
      · obtain ⟨compiled, rfl⟩ := stores?_of_succeeds hevent
        rw [latest?_cons_of_stores rfl, if_pos rfl] at h
        cases h
      · have hpast : latest? id past = none := by
          cases hstores : event.stores? with
          | none => rwa [latest?_cons_of_stores_eq_none hstores] at h
          | some entry =>
              rw [latest?_cons_of_stores hstores] at h
              split at h
              · cases h
              · exact h
        rw [List.countP_cons_of_neg hevent, ih hpast]

theorem Orderly.countP_succeeds_le_one {log : Log} (h : Orderly log) (id : Text) :
    log.countP (CacheEvent.succeeds id) ≤ 1 := by
  have hpermitted := h.permitted
  clear h
  induction log with
  | nil => exact Nat.zero_le 1
  | cons event past ih =>
      by_cases hevent : event.succeeds id = true
      · obtain ⟨compiled, rfl⟩ := stores?_of_succeeds hevent
        have hnone : latest? id past = none := hpermitted _ past (List.suffix_refl _)
        rw [List.countP_cons_of_pos hevent, countP_succeeds_eq_zero hnone]
      · rw [List.countP_cons_of_neg hevent]
        exact ih fun other older hpast => hpermitted other older (hpast.trans (List.suffix_cons _ _))

/-! ## What recipes and steps keep -/

/-- The cache keeps what was stored last. -/
def Agrees (state : MemoryCache × Log) : Prop :=
  ∀ id, state.1.get? id = latest? id state.2

theorem agrees_empty : Agrees (MemoryCache.empty, []) :=
  fun _ => rfl

/-- The later state has a longer log, which is as orderly as the earlier one. -/
structure Advances (before after : MemoryCache × Log) : Prop where
  grows : before.2 <:+ after.2
  pending : pending after.2 = pending before.2
  agrees : Agrees before → Agrees after
  orderly : Agrees before → NoReentry after.2 → Orderly before.2 → Orderly after.2

/-- Moreover, nothing was stored under the ids that were being compiled. -/
structure Leads (before after : MemoryCache × Log) : Prop extends Advances before after where
  kept : NoReentry after.2 → ∀ id ∈ Log.pending before.2,
    latest? id after.2 = latest? id before.2

theorem Advances.refl (state : MemoryCache × Log) : Advances state state where
  grows := List.suffix_refl _
  pending := rfl
  agrees := id
  orderly := fun _ _ => id

theorem Advances.trans {state next last : MemoryCache × Log} (h : Advances state next)
    (hnext : Advances next last) : Advances state last where
  grows := h.grows.trans hnext.grows
  pending := hnext.pending.trans h.pending
  agrees := hnext.agrees ∘ h.agrees
  orderly := by
    intro hagrees hreentry horderly
    exact hnext.orderly (h.agrees hagrees) hreentry
      (h.orderly hagrees (hreentry.of_isSuffix hnext.grows) horderly)

theorem Leads.refl (state : MemoryCache × Log) : Leads state state :=
  { Advances.refl state with kept := fun _ _ _ => rfl }

theorem Leads.trans {state next last : MemoryCache × Log} (h : Leads state next)
    (hnext : Leads next last) : Leads state last :=
  { h.toAdvances.trans hnext.toAdvances with
    kept := by
      intro hreentry id hid
      have hfirst := h.kept (hreentry.of_isSuffix hnext.grows) id hid
      have hsecond := hnext.kept hreentry id (by rwa [h.pending])
      exact hsecond.trans hfirst }

theorem Agrees.settle {cache : MemoryCache} {log : Log} (h : Agrees (cache, log)) (id : Text)
    (result : Except Error CompiledTemplate) :
    Agrees (settle cache id result, .ended id result :: log) := by
  intro other
  cases result with
  | ok compiled =>
      rw [latest?_cons_of_stores rfl, ← h other]
      exact MemoryCache.get?_put cache id other compiled
  | error error => exact h other

theorem Agrees.begin {cache : MemoryCache} {log : Log} (h : Agrees (cache, log)) (id : Text) :
    Agrees (cache.reserve id, .began id :: .asked id :: log) := by
  intro other
  rw [MemoryCache.get?_reserve]
  exact h other

theorem isSuffix_cons_cons (first second : CacheEvent) (log : Log) :
    log <:+ first :: second :: log :=
  ⟨[first, second], rfl⟩

theorem leads_of_hit {cache : MemoryCache} {id : Text} {compiled : CompiledTemplate} (log : Log)
    (h : cache.get? id = some compiled) :
    Leads (cache, log) (cache, .answered id (.ok compiled) :: .asked id :: log) where
  grows := isSuffix_cons_cons _ _ log
  pending := rfl
  agrees := fun hagrees => hagrees
  orderly := by
    intro hagrees _ horderly
    exact horderly.hit (by rw [← hagrees id, h])
  kept := fun _ _ _ => rfl

/-- The compilation ran between the begin and the end that are told. -/
theorem leads_of_miss {cache cache' : MemoryCache} {id : Text} {log log' : Log}
    (result : Except Error CompiledTemplate) (h : cache.get? id = none)
    (hrun : Leads (cache.reserve id, .began id :: .asked id :: log) (cache', log')) :
    Leads (cache, log)
      (settle cache' id result, .answered id result :: .ended id result :: log') where
  grows := (isSuffix_cons_cons _ _ log).trans (hrun.grows.trans (isSuffix_cons_cons _ _ log'))
  pending := by
    have hpending := hrun.pending
    simp only [Log.pending] at hpending ⊢
    rw [hpending, List.tail_cons]
  agrees := fun hagrees => (hrun.agrees (hagrees.begin id)).settle id result
  orderly := by
    intro hagrees hreentry horderly
    have hnone : latest? id log = none := by rw [← hagrees id, h]
    have hasked : Orderly (.asked id :: log) := by
      refine horderly.cons trivial ?_
      intro other heq
      rw [← CacheEvent.asked.inj heq]
      exact hnone
    have hbegan : Orderly (.began id :: .asked id :: log) := hasked.cons hnone (by simp)
    have hinside := hreentry.of_isSuffix (isSuffix_cons_cons _ _ log')
    have hstill : latest? id log' = none := by
      rw [hrun.kept hinside id List.mem_cons_self]
      exact hnone
    have hended : Orderly (.ended id result :: log') :=
      (hrun.orderly (hagrees.begin id) hinside hbegan).cons hstill (by simp)
    exact hended.cons trivial (by simp)
  kept := by
    intro hreentry other hother
    have hinside := hreentry.of_isSuffix (isSuffix_cons_cons _ _ log')
    have hsame : latest? other log' = latest? other log :=
      hrun.kept hinside other (List.mem_cons_of_mem id hother)
    have hnot : id ∉ Log.pending log := by
      have hasked : NoReentry (.asked id :: log) :=
        hinside.of_isSuffix ((List.suffix_cons _ _).trans hrun.grows)
      exact hasked.1 id rfl
    have hne : other ≠ id := by
      rintro rfl
      exact hnot hother
    cases result with
    | ok compiled =>
        rw [latest?_cons_of_stores_eq_none rfl, latest?_cons_of_stores rfl, if_neg hne]
        exact hsame
    | error error => exact hsame

theorem Recipe.run_leads (recipe : Recipe) (state : MemoryCache × Log) :
    Leads state (recipe.run state).2 :=
  Recipe.run_rel Leads.refl Leads.trans (fun _ _ log _ h => leads_of_hit log h)
    (fun _ _ _ result _ _ h hrun => leads_of_miss result h hrun) recipe state

theorem Recipe.request_leads (id : Text) (recipe : Recipe) (state : MemoryCache × Log) :
    Leads state (request id recipe.run state).2 :=
  request_rel (fun _ log _ h => leads_of_hit log h)
    (fun _ _ result _ _ h hrun => leads_of_miss result h hrun) recipe.run_leads state

theorem CacheStep.run_advances (step : CacheStep) (state : MemoryCache × Log) :
    Advances state (step.run state).2 := by
  obtain ⟨cache, log⟩ := state
  cases step with
  | get id =>
      refine ⟨List.suffix_cons _ log, rfl, fun hagrees => hagrees, ?_⟩
      intro hagrees _ horderly
      exact horderly.cons (hagrees id) (by simp)
  | put id compiled =>
      refine ⟨List.suffix_cons _ log, rfl, ?_, ?_⟩
      · intro hagrees other
        show (cache.put id compiled).get? other = latest? other (.stored id compiled :: log)
        rw [latest?_cons_of_stores rfl, ← hagrees other]
        exact MemoryCache.get?_put cache id other compiled
      · intro _ _ horderly
        exact horderly.cons trivial (by simp)
  | getOrCompile id recipe => exact (recipe.request_leads id (cache, log)).toAdvances

/-! ## Runs -/

def CacheStep.after {κ ω : Type} [TemplateCache κ] [Observer ω] (steps : List CacheStep)
    (state : κ × ω) : κ × ω :=
  steps.foldl (fun state step => (step.run state).2) state

theorem CacheStep.advances_after (steps : List CacheStep) (state : MemoryCache × Log) :
    Advances state (CacheStep.after steps state) := by
  induction steps generalizing state with
  | nil => exact Advances.refl state
  | cons step steps ih => exact (step.run_advances state).trans (ih _)

theorem Agrees.size_eq {state : MemoryCache × Log} (h : Agrees state) :
    state.1.size = (storedIds state.2).card := by
  have hids : state.1.ids = storedIds state.2 := by
    ext id
    rw [MemoryCache.mem_ids, mem_storedIds, h id]
  rw [MemoryCache.size_eq_card, hids]

/-- The state after a run on a memory cache that is empty at first. -/
theorem CacheStep.agrees_after (steps : List CacheStep) :
    Agrees (CacheStep.after steps (MemoryCache.empty, [])) :=
  (CacheStep.advances_after steps _).agrees agrees_empty

theorem CacheStep.after_append (steps more : List CacheStep) (state : MemoryCache × Log) :
    CacheStep.after (steps ++ more) state = CacheStep.after more (CacheStep.after steps state) :=
  List.foldl_append

/-! ### Recipes that do not ask for themselves -/

/-- The recipe asks for none of the ids, and in it nothing asks for an id that it is part of
compiling. -/
def Recipe.Avoids : List Text → Recipe → Prop
  | _, fail _ => True
  | _, give _ => True
  | ids, ask id recipe next =>
      id ∉ ids ∧ Avoids (id :: ids) recipe ∧ ∀ compiled, Avoids ids (next compiled)

theorem noReentry_request {id : Text} {recipe : Recipe} {state : MemoryCache × Log}
    (hid : id ∉ Log.pending state.2) (hstate : NoReentry state.2)
    (hrun : ∀ begun : MemoryCache × Log, Log.pending begun.2 = id :: Log.pending state.2 →
      NoReentry begun.2 → NoReentry (recipe.run begun).2.2) :
    NoReentry (request id recipe.run state).2.2 := by
  obtain ⟨cache, log⟩ := state
  have hasked : NoReentry (.asked id :: log) := by
    refine ⟨?_, hstate⟩
    intro other hother
    obtain rfl := Option.some.inj hother
    exact hid
  cases hget : cache.get? id with
  | some compiled =>
      rw [MemoryCache.request_of_hit hget]
      exact ⟨by simp [CacheEvent.askedId?], hasked⟩
  | none =>
      have hbegun := hrun (cache.reserve id, .began id :: .asked id :: log) rfl
        ⟨by simp [CacheEvent.askedId?], hasked⟩
      rcases hstate' : recipe.run (cache.reserve id, .began id :: .asked id :: log)
        with ⟨result, cache', log'⟩
      rw [hstate'] at hbegun
      rw [MemoryCache.request_of_miss hget hstate']
      exact ⟨by simp [CacheEvent.askedId?], by simp [CacheEvent.askedId?], hbegun⟩

theorem Recipe.noReentry_run {recipe : Recipe} {ids : List Text} (h : recipe.Avoids ids)
    {state : MemoryCache × Log} (hpending : Log.pending state.2 ⊆ ids)
    (hstate : NoReentry state.2) : NoReentry (recipe.run state).2.2 := by
  induction recipe generalizing ids state with
  | fail error => exact hstate
  | give compiled => exact hstate
  | ask id recipe next ih ihnext =>
      obtain ⟨hid, hrecipe, hnext⟩ := h
      have hrequest : NoReentry (request id recipe.run state).2.2 := by
        refine noReentry_request (fun hmem => hid (hpending hmem)) hstate ?_
        intro begun hbegun hlog
        refine ih hrecipe ?_ hlog
        rw [hbegun]
        exact List.cons_subset_cons id hpending
      have hsame := (recipe.request_leads id state).pending
      simp only [Recipe.run]
      rcases hrun : request id recipe.run state with ⟨_ | compiled, state'⟩
      · rw [hrun] at hrequest
        exact hrequest
      · rw [hrun] at hrequest hsame
        refine ihnext compiled (hnext compiled) ?_ hrequest
        rwa [hsame]

/-- What is compiled from outside does not ask for its own id. -/
def CacheStep.Careful : CacheStep → Prop
  | getOrCompile id recipe => recipe.Avoids [id]
  | _ => True

/-- Recipes that never ask for what they are part of compiling make runs without reentry. -/
theorem CacheStep.noReentry_after {steps : List CacheStep} (h : ∀ step ∈ steps, step.Careful) :
    NoReentry (CacheStep.after steps (MemoryCache.empty, [])).2 := by
  have hrun : ∀ state : MemoryCache × Log, Log.pending state.2 = [] → NoReentry state.2 →
      NoReentry (CacheStep.after steps state).2 := by
    induction steps with
    | nil => exact fun state _ hstate => hstate
    | cons step steps ih =>
        intro state hpending hstate
        have hlater := ih fun other hother => h other (List.mem_cons_of_mem step hother)
        refine hlater (step.run state).2 ?_ ?_
        · rw [(step.run_advances state).pending, hpending]
        · cases step with
          | get id => exact ⟨by simp [CacheEvent.askedId?], hstate⟩
          | put id compiled => exact ⟨by simp [CacheEvent.askedId?], hstate⟩
          | getOrCompile id recipe =>
              have hcareful : recipe.Avoids [id] := h _ List.mem_cons_self
              refine noReentry_request (by simp [hpending]) hstate ?_
              intro begun hbegun hlog
              refine Recipe.noReentry_run hcareful ?_ hlog
              rw [hbegun, hpending]
              exact List.Subset.refl _
  exact hrun _ rfl trivial

/-! ### The law -/

/-- In every run in which no id is asked for while it is compiled: at most one compilation of
an id succeeds, and none begins or goes on once something was stored under the id; from then
on everyone who looks for the id or asks for it, from outside or in a recipe, gets what was
stored last, and nothing else happens; and the size is the number of ids that something was
stored under, and does not fall. -/
theorem MemoryCache.compiles_once (steps : List CacheStep)
    (h : NoReentry (CacheStep.after steps (MemoryCache.empty, [])).2) :
    let state := CacheStep.after steps (MemoryCache.empty, ([] : Log))
    (∀ id, state.2.countP (CacheEvent.succeeds id) ≤ 1) ∧
    (∀ id past, .began id :: past <:+ state.2 → latest? id past = none) ∧
    (∀ id result past, .ended id result :: past <:+ state.2 → latest? id past = none) ∧
    (∀ id compiled past, latest? id past = some compiled →
      (∀ hit, .found id hit :: past <:+ state.2 → hit = some compiled) ∧
      (.asked id :: past <:+ state.2 →
        .answered id (.ok compiled) :: .asked id :: past <:+ state.2)) ∧
    (∀ id compiled, latest? id state.2 = some compiled →
      ((CacheStep.get id).run state).1 = .found (some compiled) ∧
      ∀ recipe, (CacheStep.getOrCompile id recipe).run state =
        (.compiled (.ok compiled),
          (state.1, .answered id (.ok compiled) :: .asked id :: state.2))) ∧
    state.1.size = (storedIds state.2).card ∧
    ∀ more, state.1.size ≤ (CacheStep.after (steps ++ more) (MemoryCache.empty, ([] : Log))).1.size := by
  intro state
  have hagrees : Agrees state := CacheStep.agrees_after steps
  have horderly : Orderly state.2 :=
    (CacheStep.advances_after steps _).orderly agrees_empty h orderly_nil
  refine ⟨horderly.countP_succeeds_le_one, ?_, ?_, ?_, ?_, hagrees.size_eq, ?_⟩
  · exact fun id past hpast => horderly.permitted _ past hpast
  · exact fun id result past hpast => horderly.permitted _ past hpast
  · intro id compiled past hlatest
    refine ⟨?_, horderly.answered id compiled past hlatest⟩
    intro hit hpast
    have hfound : hit = latest? id past := horderly.permitted _ past hpast
    rw [hfound, hlatest]
  · intro id compiled hlatest
    have hget : state.1.get? id = some compiled := (hagrees id).trans hlatest
    refine ⟨congrArg CacheAnswer.found hget, ?_⟩
    intro recipe
    have hrequest := MemoryCache.request_of_hit hget recipe.run state.2
    simp only [CacheStep.run, hrequest]
    rfl
  · intro more
    have hmore := CacheStep.agrees_after (steps ++ more)
    rw [CacheStep.after_append] at hmore ⊢
    rw [hagrees.size_eq, hmore.size_eq]
    exact Finset.card_le_card (storedIds_subset (CacheStep.advances_after more state).grows)

/-- A compilation that fails behind a nested one that succeeds, one that uses what is there,
and a template that is stored in place of another. -/
theorem MemoryCache.compiles_once_of_nested_and_stored :
    let header : CompiledTemplate := ⟨"header".toList, "<h1>".toList⟩
    let failing : Recipe := .fail (.templateNotFound "none".toList)
    let steps : List CacheStep :=
      [.getOrCompile "page".toList (.ask header.id (.give header) fun _ => failing),
        .getOrCompile "page".toList (.ask header.id failing fun above =>
          .give ⟨"page".toList, above.text ++ "body".toList⟩),
        .put header.id ⟨"other".toList, []⟩, .getOrCompile header.id failing]
    let state := CacheStep.after steps (MemoryCache.empty, ([] : Log))
    NoReentry state.2 ∧
      state.2.countP (CacheEvent.succeeds header.id) ≤ 1 ∧
      ((CacheStep.get header.id).run state).1 = .found (some ⟨"other".toList, []⟩) ∧
      state.1.size = (storedIds state.2).card := by
  intro header failing steps state
  have hreentry : NoReentry state.2 := by decide +kernel
  have hlatest : latest? header.id state.2 = some ⟨"other".toList, []⟩ := by decide +kernel
  obtain ⟨honce, -, -, -, hkept, hsize, -⟩ := MemoryCache.compiles_once steps hreentry
  exact ⟨hreentry, honce header.id, (hkept header.id _ hlatest).1, hsize⟩

end TagTemplate
