import TagTemplate.Tag.Attributes

/-!
# Loops over collections

A `foreach` tag names a collection, a variable for its items and perhaps one for
their keys.  It is written `rows as row`, `rows as key => row` (the arrow may also be
`==>`), or with the attributes `from`, `item` and `key`.  The code of a loop counts an
index, binds the item, and hangs the index and the first and last item of the
collection onto the item under the metadata mark.
-/

namespace TagTemplate

structure Loop where
  collection : Text
  item : Text
  key : Option Text
  deriving DecidableEq, Repr

namespace Loop

/-! ## Reading -/

/-- Reads blanks, the word `as`, blanks and a target up to the end of the text.  The
target holds no line feed; it is not empty, unless two blanks at least follow the
word and the last of them is no line feed. -/
def target? (text : Text) : Option Text :=
  if text.head?.any isBlank then
    (Text.after? "as".toList (Text.trimStart text)).bind fun rest =>
      let gap := rest.takeWhile isBlank
      let target := Text.trimStart rest
      if target.isEmpty then
        if 2 ≤ gap.length ∧ gap.getLast? ≠ some '\n' then some [] else none
      else if gap.isEmpty || target.contains '\n' then none
      else some (Text.trimEnd target)
  else none

/-- Cuts `collection as target` at the first place where both sides can be read.  The
collection has a character at least and holds no line feed. -/
def splitAs? : Text → Option (Text × Text)
  | [] => none
  | c :: text =>
      if c = '\n' then none
      else
        match target? text with
        | some target => some ([c], target)
        | none => (splitAs? text).map fun (collection, target) => (c :: collection, target)

def afterArrow? (text : Text) : Option Text :=
  (Text.after? "==>".toList text).or (Text.after? "=>".toList text)

def splitArrow? : Text → Option (Text × Text)
  | [] => none
  | c :: text =>
      match afterArrow? (c :: text) with
      | some rest => some ([], rest)
      | none => (splitArrow? text).map fun (key, item) => (c :: key, item)

/-- The loop of a collection and a target, which is an item or `key => item`. -/
def ofTarget (collection target : Text) : Loop :=
  match splitArrow? target with
  | none => ⟨collection, target, none⟩
  | some (key, item) => ⟨collection, Text.trimStart item, some (Text.trimEnd key)⟩

def ofAttributes (attributes : Attributes) : Loop where
  collection := (attributes.ident? "from".toList).getD Attributes.missing
  item := (attributes.ident? "item".toList).getD Attributes.missing
  key := attributes.ident? "key".toList

def read (expression : Text) : Loop :=
  match splitAs? expression with
  | some (collection, target) => ofTarget (Text.trim collection) target
  | none => ofAttributes (Attributes.read expression)

/-! ## Code -/

def index (loop : Loop) : Text :=
  loop.item ++ "Index".toList

def metadata (metaMark : Text) (loop : Loop) (name : Text) : Text :=
  loop.item ++ ".".toList ++ metaMark ++ name

def head (loop : Loop) : Text :=
  let keyStart := loop.key.elim [] fun key => ", ".toList ++ key ++ " = 0".toList
  let keyStep := loop.key.elim [] fun key => ", ".toList ++ key ++ "++".toList
  "for (let ".toList ++ loop.index ++ " = 0".toList ++ keyStart ++ ", ".toList ++ loop.item ++
    "; ".toList ++ loop.index ++ " < ".toList ++ loop.collection ++ ".length; ".toList ++
    loop.index ++ "++".toList ++ keyStep ++ ") \x7b ".toList

def bindItem (loop : Loop) : Text :=
  loop.item ++ " = ".toList ++ loop.collection ++ "[".toList ++ loop.index ++ "]; ".toList

/-- Puts an item that is no object into an object which gives it back as its text and
as its value, so that metadata can be hung onto it. -/
def boxItem (loop : Loop) : Text :=
  "if (typeOf(".toList ++ loop.item ++ ") != \"object\" || ".toList ++ loop.item ++
    " === null) \x7b ".toList ++ loop.item ++
    (" = (function (value) \x7b return \x7b " ++
      "toString: function () \x7b return String(value); \x7d, " ++
      "valueOf: function () \x7b return value; \x7d \x7d; \x7d)(").toList ++
    loop.item ++ "); \x7d ".toList

def metadataCode (metaMark : Text) (loop : Loop) : Text :=
  loop.metadata metaMark "index".toList ++ " = ".toList ++ loop.index ++ "; ".toList ++
    loop.metadata metaMark "first".toList ++ " = ".toList ++ loop.collection ++
    "[0]; ".toList ++ loop.metadata metaMark "last".toList ++ " = ".toList ++
    loop.collection ++ "[".toList ++ loop.collection ++ ".length - 1];".toList

def code (metaMark : Text) (loop : Loop) : Text :=
  loop.head ++ loop.bindItem ++ loop.boxItem ++ loop.metadataCode metaMark

end Loop

end TagTemplate
