import TagTemplate.Store.Cache

/-!
# Recipes

A recipe says how a template is compiled.  It may ask the cache it is run on for other
templates, each with a recipe of its own, and what it does next may depend on what it gets;
an error that it gets is its own.  What happens meanwhile is told to the world that goes
with the cache: a number counts the compilations, a log keeps everything.

A request is a recipe written down as a tree: other requests are run first, on the same
cache, and then the compilation fails or gives a template.
-/

namespace TagTemplate

/-! ## Events -/

inductive CacheEvent
  | asked (id : Text)
  | began (id : Text)
  /-- The compilation of an id ends.  The template that it gives is stored. -/
  | ended (id : Text) (result : Except Error CompiledTemplate)
  /-- The last one who asked, and got no answer yet, gets it. -/
  | answered (id : Text) (result : Except Error CompiledTemplate)
  /-- A template is stored from outside. -/
  | stored (id : Text) (compiled : CompiledTemplate)
  | found (id : Text) (hit : Option CompiledTemplate)
  deriving Repr

class Observer (ω : Type) where
  note : CacheEvent → ω → ω

/-- A number counts the compilations. -/
instance : Observer Nat where
  note
    | .began _, compilations => compilations + 1
    | _, compilations => compilations

/-- What happened, the latest first. -/
abbrev Log : Type :=
  List CacheEvent

instance : Observer Log where
  note event log := event :: log

/-! ## Running recipes -/

inductive Recipe
  | fail (error : Error)
  | give (compiled : CompiledTemplate)
  /-- Asks for the template of an id and goes on with it. -/
  | ask (id : Text) (recipe : Recipe) (next : CompiledTemplate → Recipe)

variable {κ ω : Type} [TemplateCache κ] [Observer ω]

def compilation (id : Text) (compile : Action (κ × ω) CompiledTemplate) :
    Action (κ × ω) CompiledTemplate := fun (cache, world) =>
  match compile (cache, Observer.note (.began id) world) with
  | (result, (cache, world)) => (result, (cache, Observer.note (.ended id result) world))

def request (id : Text) (compile : Action (κ × ω) CompiledTemplate) :
    Action (κ × ω) CompiledTemplate := fun (cache, world) =>
  match TemplateCache.getOrCompile id (compilation id compile)
      (cache, Observer.note (.asked id) world) with
  | (result, (cache, world)) => (result, (cache, Observer.note (.answered id result) world))

def Recipe.run : Recipe → Action (κ × ω) CompiledTemplate
  | fail error => fun state => (.error error, state)
  | give compiled => fun state => (.ok compiled, state)
  | ask id recipe next => fun state =>
      match request id recipe.run state with
      | (.error error, state) => (.error error, state)
      | (.ok compiled, state) => (next compiled).run state

/-! ## Steps -/

inductive CacheStep
  | get (id : Text)
  | put (id : Text) (compiled : CompiledTemplate)
  | getOrCompile (id : Text) (recipe : Recipe)

inductive CacheAnswer
  | found (hit : Option CompiledTemplate)
  | stored
  | compiled (result : Except Error CompiledTemplate)

def CacheStep.run : CacheStep → κ × ω → CacheAnswer × (κ × ω)
  | get id, (cache, world) =>
      let hit := TemplateCache.get? cache id
      (.found hit, (cache, Observer.note (.found id hit) world))
  | put id compiled, (cache, world) =>
      (.stored, (TemplateCache.put cache id compiled, Observer.note (.stored id compiled) world))
  | getOrCompile id recipe, state =>
      let (result, state) := request id recipe.run state
      (.compiled result, state)

/-- Does steps in order: the answer to each with the state after it. -/
def CacheStep.runAll : List CacheStep → κ × ω → List (CacheAnswer × (κ × ω))
  | [], _ => []
  | step :: steps, state =>
      let outcome := step.run state
      outcome :: runAll steps outcome.2

/-! ## Requests -/

/-- A request for a template, with what its compilation does: the requests it makes, in
order, and then the failure for want of a template, or else the text it adds to theirs and
the id it gives to its template (by default the id of the request). -/
inductive Request
  | mk (id text : Text) (templateId : Option Text) (nested : List Request)
      (failure : Option Text)

def Request.id : Request → Text
  | .mk id _ _ _ _ => id

mutual

def Request.recipe : Request → Recipe
  | .mk id text templateId nested failure =>
      Request.askAll nested fun buffer =>
        match failure with
        | some missing => .fail (.templateNotFound missing)
        | none => .give ⟨templateId.getD id, buffer ++ text⟩

/-- Makes requests in order, up to the first error, and goes on with their joined texts. -/
def Request.askAll : List Request → (Text → Recipe) → Recipe
  | [], next => next []
  | request :: requests, next =>
      .ask request.id (Request.recipe request) fun compiled =>
        Request.askAll requests fun text => next (compiled.text ++ text)

end

def CacheStep.request (asked : Request) : CacheStep :=
  .getOrCompile asked.id asked.recipe

end TagTemplate
