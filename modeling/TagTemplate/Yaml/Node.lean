import TagTemplate.Yaml.Layout

/-!
# YAML nodes

The values that YAML text stands for: texts, sequences and mappings.  Nodes are read from
tokens.  A node that is left out is the empty plain text.  An alias stands for the node that
bears its anchor; of such a node only the text is wanted, so an alias of a sequence or
mapping is kept as a mere reference.
-/

namespace TagTemplate.Yaml

inductive Node
  | scalar (text : Text) (plain : Bool)
  | sequence (items : List Node)
  | mapping (entries : List (Node × Node))
  | reference

namespace Node

/-- The node that stands for nothing written. -/
def empty : Node :=
  .scalar [] true

def text? : Node → Option Text
  | scalar text _ => some text
  | _ => none

end Node

/-- What is left to read, the anchors so far with what an alias of each stands for, the last
one first, and the handles that tags may have. -/
structure Reading where
  tokens : List Token
  anchors : List (Text × Node)
  handles : List Text

abbrev Read (α : Type) : Type :=
  StateT Reading Option α

namespace Read

def peek? : Read (Option Token) := do
  return (← get).tokens.head?

def skip : Read Unit :=
  modify fun reading => { reading with tokens := reading.tokens.tail }

def sees (tokens : List Token) : Read Bool := do
  return (← peek?).any tokens.contains

def expect (token : Token) : Read Unit := do
  if ← sees [token] then skip else failure

def skipIf (token : Token) : Read Bool := do
  if ← sees [token] then
    skip
    return true
  else return false

def anchor? : Read (Option Text) := do
  match ← peek? with
  | some (.anchor name) =>
      skip
      return some name
  | _ => return none

/-- Reads a tag if one is next; its handle has to be known. -/
def tag : Read Bool := do
  match ← peek? with
  | some (.tag handle) =>
      skip
      if handle.isEmpty || (← get).handles.contains handle then return true else failure
  | _ => return false

/-- Reads an anchor and a tag, in either order, each if it is there: the name of the anchor,
and whether there was one of the two. -/
def properties : Read (Option Text × Bool) := do
  let first ← anchor?
  let tagged ← tag
  let name ← if first.isNone && tagged then anchor? else pure first
  return (name, name.isSome || tagged)

def name (anchor : Option Text) (node : Node) : Read Unit :=
  match anchor with
  | none => pure ()
  | some name => modify fun reading => { reading with anchors := (name, node) :: reading.anchors }

mutual

/-- Reads a node.  Sequences and mappings in blocks are read where `block` allows them, and
a sequence that is indented no further than the key before it where `unindented` does.  The
first argument bounds the depth of the reading. -/
def node : Nat → Bool → Bool → Read Node
  | 0, _, _ => failure
  | fuel + 1, block, unindented => do
      match ← peek? with
      | some (.alias name) =>
          skip
          match (← get).anchors.lookup name with
          | some node => return node
          | none => failure
      | _ => pure ()
      let (anchor, hasProperties) ← properties
      match ← peek? with
      | some (.scalar text plain) =>
          skip
          name anchor (.scalar text plain)
          return .scalar text plain
      | some .flowSequence =>
          skip
          name anchor .reference
          return .sequence (← flowItems fuel true)
      | some .flowMapping =>
          skip
          name anchor .reference
          return .mapping (← flowEntries fuel true)
      | some .blockSequence =>
          if !block then failure
          skip
          name anchor .reference
          return .sequence (← blockItems fuel)
      | some .blockMapping =>
          if !block then failure
          skip
          name anchor .reference
          return .mapping (← blockEntries fuel)
      | some .blockEntry =>
          if unindented then
            name anchor .reference
            return .sequence (← unindentedItems fuel)
          else if hasProperties then
            name anchor .empty
            return .empty
          else failure
      | _ =>
          if hasProperties then
            name anchor .empty
            return .empty
          else failure

def nodeUnless : Nat → List Token → Bool → Bool → Read Node
  | 0, _, _, _ => failure
  | fuel + 1, ends, block, unindented => do
      if ← sees ends then return .empty else node fuel block unindented

def blockItems : Nat → Read (List Node)
  | 0 => failure
  | fuel + 1 => do
      if ← skipIf .blockEntry then
        let item ← nodeUnless fuel [.blockEntry, .blockEnd] true false
        return item :: (← blockItems fuel)
      else
        expect .blockEnd
        return []

/-- Reads the entries of a sequence that is indented no further than its key. -/
def unindentedItems : Nat → Read (List Node)
  | 0 => failure
  | fuel + 1 => do
      if ← skipIf .blockEntry then
        let item ← nodeUnless fuel [.blockEntry, .key, .value, .blockEnd] true false
        return item :: (← unindentedItems fuel)
      else return []

def blockEntries : Nat → Read (List (Node × Node))
  | 0 => failure
  | fuel + 1 => do
      if ← skipIf .key then
        let key ← nodeUnless fuel [.key, .value, .blockEnd] true true
        let value ←
          if ← skipIf .value then nodeUnless fuel [.key, .value, .blockEnd] true true
          else pure .empty
        return (key, value) :: (← blockEntries fuel)
      else
        expect .blockEnd
        return []

/-- Reads a mapping of a single entry inside a sequence in brackets, from behind the mark of
its key.  If there is no key, the sign that is there instead is dropped. -/
def flowPair : Nat → Read Node
  | 0 => failure
  | fuel + 1 => do
      let key ←
        if ← sees [.value, .flowEntry, .flowSequenceEnd] then
          skip
          pure .empty
        else node fuel false false
      let value ←
        if ← skipIf .value then nodeUnless fuel [.flowEntry, .flowSequenceEnd] false false
        else pure .empty
      return .mapping [(key, value)]

def flowItems : Nat → Bool → Read (List Node)
  | 0, _ => failure
  | fuel + 1, first => do
      if ← skipIf .flowSequenceEnd then return []
      if !first then expect .flowEntry
      if ← skipIf .flowSequenceEnd then return []
      let item ← if ← skipIf .key then flowPair fuel else node fuel false false
      return item :: (← flowItems fuel false)

def flowEntries : Nat → Bool → Read (List (Node × Node))
  | 0, _ => failure
  | fuel + 1, first => do
      if ← skipIf .flowMappingEnd then return []
      if !first then expect .flowEntry
      if ← skipIf .flowMappingEnd then return []
      if ← skipIf .key then
        let key ← nodeUnless fuel [.value, .flowEntry, .flowMappingEnd] false false
        let value ←
          if ← skipIf .value then nodeUnless fuel [.flowEntry, .flowMappingEnd] false false
          else pure .empty
        return (key, value) :: (← flowEntries fuel false)
      else
        let key ← node fuel false false
        return (key, .empty) :: (← flowEntries fuel false)

end

/-- Reads the directives in front of a document: whether there are any.  There is one
version at most, which is 1.1 or 1.2, and no handle is declared twice. -/
def directives : Nat → Bool → List Text → Read Bool
  | 0, _, _ => failure
  | fuel + 1, hasVersion, declared => do
      match ← peek? with
      | some (.version major minor) =>
          if hasVersion || major != 1 || (minor != 1 && minor != 2) then failure
          skip
          directives fuel true declared
      | some (.tagHandle handle) =>
          if declared.contains handle then failure
          skip
          modify fun reading => { reading with handles := handle :: reading.handles }
          directives fuel hasVersion (handle :: declared)
      | _ => return hasVersion || !declared.isEmpty

def documentEnds : Nat → Read Unit
  | 0 => failure
  | fuel + 1 => do
      if ← skipIf .documentEnd then documentEnds fuel

def document (fuel : Nat) : Read (Option Node) := do
  if (← peek?).isNone then return none
  let hasDirectives ← directives fuel false []
  let marked ← skipIf .documentStart
  if hasDirectives && !marked then failure
  let next ← peek?
  let root ←
    if marked && (next.isNone || next == some .documentStart || next == some .documentEnd) then
      pure Node.empty
    else node fuel true false
  documentEnds fuel
  if (← peek?).isSome then failure
  return some root

end Read

/-- Reads the node of a text with one document at most. -/
def Node.ofText? (text : Text) : Option (Option Node) :=
  (tokens? text).bind fun tokens =>
    let handles := ["!".toList, "!!".toList]
    ((Read.document (4 * tokens.length + 8)).run ⟨tokens, [], handles⟩).map Prod.fst

end TagTemplate.Yaml
