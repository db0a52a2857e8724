import TagTemplate.Config.Basic
import TagTemplate.Table

/-!
# Caches of compiled templates

A cache keeps compiled templates under ids.  A template that is not there is compiled on
request and then kept.  The action that compiles it may work on the same cache, so it is
run on the cache and whatever else it needs.

A memory cache gives each id a slot.  The slot is set up before the template of the id is
compiled and filled afterwards; if the compilation fails it stays, and stays empty.  Empty
slots are never seen from outside.  A map cache keeps a table of templates and does
without slots, and the void cache keeps nothing.
-/

namespace TagTemplate

/-- The text of a compiled template, with the id of the template it was compiled from. -/
structure CompiledTemplate where
  id : Text
  text : Text
  deriving DecidableEq, Repr

/-- Something that reads and changes a state and may fail; a failure keeps the changes
that were made before it. -/
abbrev Action (σ α : Type) : Type :=
  σ → Except Error α × σ

class TemplateCache (κ : Type) where
  get? : κ → Text → Option CompiledTemplate
  put : κ → Text → CompiledTemplate → κ
  /-- The template that is kept under an id; if there is none, the one that the action
  compiles, which is then kept. -/
  getOrCompile {ω : Type} (id : Text) (compile : Action (κ × ω) CompiledTemplate) :
      Action (κ × ω) CompiledTemplate := fun (cache, world) =>
    match get? cache id with
    | some hit => (.ok hit, (cache, world))
    | none =>
        match compile (cache, world) with
        | (.ok compiled, (cache, world)) => (.ok compiled, (put cache id compiled, world))
        | (.error error, state) => (.error error, state)

/-! ## Kinds of caches -/

/-- A slot for each id that was asked for or stored; a slot may be empty. -/
structure MemoryCache where
  slots : Table (Option CompiledTemplate)

namespace MemoryCache

def empty : MemoryCache :=
  ⟨Table.empty⟩

def get? (cache : MemoryCache) (id : Text) : Option CompiledTemplate :=
  (cache.slots.find? id).join

def put (cache : MemoryCache) (id : Text) (compiled : CompiledTemplate) : MemoryCache :=
  ⟨cache.slots.insert id (some compiled)⟩

/-- Sets up the slot of an id, unless there is one. -/
def reserve (cache : MemoryCache) (id : Text) : MemoryCache :=
  if cache.slots.contains id then cache else ⟨cache.slots.insert id none⟩

/-- The number of filled slots. -/
def size (cache : MemoryCache) : Nat :=
  cache.slots.entries.countP fun (_, slot) => slot.isSome

/-- Reads the slot of an id.  A slot that is empty or missing is filled with what the
action compiles; the slot is there while the action runs. -/
def getOrCompile {ω : Type} (id : Text) (compile : Action (MemoryCache × ω) CompiledTemplate) :
    Action (MemoryCache × ω) CompiledTemplate := fun (cache, world) =>
  match cache.get? id with
  | some hit => (.ok hit, (cache, world))
  | none =>
      match compile (cache.reserve id, world) with
      | (.ok compiled, (cache, world)) => (.ok compiled, (cache.put id compiled, world))
      | (.error error, state) => (.error error, state)

instance : TemplateCache MemoryCache where
  get? := get?
  put := put
  getOrCompile := getOrCompile

end MemoryCache

structure MapCache where
  templates : Table CompiledTemplate

namespace MapCache

def empty : MapCache :=
  ⟨Table.empty⟩

def size (cache : MapCache) : Nat :=
  cache.templates.size

instance : TemplateCache MapCache where
  get? cache id := cache.templates.find? id
  put cache id compiled := ⟨cache.templates.insert id compiled⟩

end MapCache

/-- The cache that keeps nothing, so every request compiles. -/
structure VoidCache where

instance : TemplateCache VoidCache where
  get? _ _ := none
  put cache _ _ := cache

end TagTemplate
