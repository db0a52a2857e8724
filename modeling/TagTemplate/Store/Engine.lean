import TagTemplate.Json.Value
import TagTemplate.Store.Cache
import TagTemplate.Template.Compiler

/-!
# Engines

An engine compiles the templates of a source on first use, keeps them in a cache, and
hands them to renderers.  The source counts how often the engine asked it for a template.
Data is converted to JSON before a renderer sees it; data that has no form in JSON, such as
a map whose keys are no texts, is `none` here.
-/

namespace TagTemplate

/-- Templates by their ids, and the number of times that a template was loaded. -/
structure Source where
  templates : Table Text
  loads : Nat

namespace Source

def ofList (templates : List (Text × Text)) : Source :=
  ⟨Table.ofList templates, 0⟩

def find (source : Source) (id : Text) : Except Error Text :=
  match source.templates.find? id with
  | some text => .ok text
  | none => .error (.templateNotFound id)

/-- Loads the template of an id; a template that is missing counts as well. -/
def load (source : Source) (id : Text) : Except Error Text × Source :=
  (source.find id, { source with loads := source.loads + 1 })

def insert (source : Source) (id text : Text) : Source :=
  { source with templates := source.templates.insert id text }

def contains (source : Source) (id : Text) : Bool :=
  source.templates.contains id

end Source

/-- What evaluates a compiled template on data. -/
abbrev Renderer : Type :=
  CompiledTemplate → Json → Except Error Text

namespace Renderer

/-- Gives the id, the text and the data back, with bars between them. -/
def echo : Renderer := fun template data =>
  .ok (template.id ++ ['|'] ++ template.text ++ ['|'] ++ data.render)

def refuse : Renderer := fun template _ =>
  .error (.render ("cannot render ".toList ++ template.id))

/-- Evaluates a template on data; the renderer is not called if the data does not convert. -/
def onData (renderer : Renderer) (data : Option Json) (template : CompiledTemplate) :
    Except Error Text :=
  match data with
  | some data => renderer template data
  | none => .error .json

end Renderer

structure Engine (κ : Type) where
  compiler : Compiler
  source : Source
  cache : κ

namespace Engine

variable {κ : Type} [TemplateCache κ]

def compileFrom (compiler : Compiler) (id : Text) : Action (κ × Source) CompiledTemplate :=
  fun (cache, source) =>
    match source.load id with
    | (.ok text, source) => (.ok ⟨id, compiler.compile text⟩, (cache, source))
    | (.error error, source) => (.error error, (cache, source))

def compiled (engine : Engine κ) (id : Text) : Except Error CompiledTemplate × Engine κ :=
  let (result, (cache, source)) :=
    TemplateCache.getOrCompile id (compileFrom engine.compiler id) (engine.cache, engine.source)
  (result, { engine with source := source, cache := cache })

/-- Renders the template of an id with data, which is converted once the template is there. -/
def format (engine : Engine κ) (id : Text) (data : Option Json) (renderer : Renderer) :
    Except Error Text × Engine κ :=
  match engine.compiled id with
  | (.ok template, engine) => (renderer.onData data template, engine)
  | (.error error, engine) => (.error error, engine)

inductive Step
  | compiled (id : Text)
  | format (id : Text) (data : Option Json) (renderer : Renderer)
  | insert (id text : Text)
  | contains (id : Text)
  | load (id : Text)
  | get (id : Text)
  | put (id : Text) (template : CompiledTemplate)
  | compile (text : Text)
  | config

inductive Answer
  | template (result : Except Error CompiledTemplate)
  | output (result : Except Error Text)
  | inserted
  | contains (known : Bool)
  | loaded (result : Except Error Text)
  | found (hit : Option CompiledTemplate)
  | stored
  | compiled (text : Text)
  | config (config : Config)

def run (engine : Engine κ) : Step → Answer × Engine κ
  | .compiled id =>
      let (result, engine) := engine.compiled id
      (.template result, engine)
  | .format id data renderer =>
      let (result, engine) := engine.format id data renderer
      (.output result, engine)
  | .insert id text => (.inserted, { engine with source := engine.source.insert id text })
  | .contains id => (.contains (engine.source.contains id), engine)
  | .load id => (.loaded (engine.source.find id), engine)
  | .get id => (.found (TemplateCache.get? engine.cache id), engine)
  | .put id template =>
      (.stored, { engine with cache := TemplateCache.put engine.cache id template })
  | .compile text => (.compiled (engine.compiler.compile text), engine)
  | .config => (.config engine.compiler.config, engine)

/-- Does steps in order: the answer to each with the engine after it. -/
def runAll : Engine κ → List Step → List (Answer × Engine κ)
  | _, [] => []
  | engine, step :: steps =>
      let outcome := engine.run step
      outcome :: runAll outcome.2 steps

end Engine

end TagTemplate
