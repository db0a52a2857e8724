import TagTemplate.Expression.Compile
import TagTemplate.Expression.Operator
import TagTemplate.Tag.Loop

/-!
# Kinds of tags and their code

The constructs that a tag can compile to.  Eight of them are introduced by a keyword at the
start of the tag; the end of a block and the exit from a loop are not.

The fragment of a tag is its target code.  Each kind of tag has one generator, which takes the
tag's expression with its sigils already normalized.  Nesting is not tracked: the end of a
block is a closing brace, whatever the block.
-/

namespace TagTemplate

inductive Kind
  | ifTag
  | elseIfTag
  | elseTag
  | endTag
  | foreachTag
  | sectionTag
  | assignTag
  | calcTag
  | printTag
  | breakTag
  deriving DecidableEq, Repr

namespace Kind

def all : List Kind :=
  [ifTag, elseIfTag, elseTag, endTag, foreachTag, sectionTag, assignTag, calcTag, printTag,
    breakTag]

/-- The keyword of a kind, or the name of one that has no keyword. -/
def name : Kind → Text
  | ifTag => "if".toList
  | elseIfTag => "elseif".toList
  | elseTag => "else".toList
  | endTag => "end".toList
  | foreachTag => "foreach".toList
  | sectionTag => "section".toList
  | assignTag => "assign".toList
  | calcTag => "calc".toList
  | printTag => "print".toList
  | breakTag => "break".toList

def withKeyword : List Kind :=
  [ifTag, elseIfTag, elseTag, foreachTag, sectionTag, assignTag, calcTag, printTag]

def keywords : List Text :=
  withKeyword.map name

def ofKeyword? (word : Text) : Option Kind :=
  withKeyword.find? fun kind => kind.name == word

def ofName? (word : Text) : Option Kind :=
  all.find? fun kind => kind.name == word

theorem ofName?_name (kind : Kind) : ofName? kind.name = some kind := by
  cases kind <;> decide

theorem ofKeyword?_isSome_iff (word : Text) :
    (ofKeyword? word).isSome = true ↔ word ∈ keywords := by
  simp only [ofKeyword?, keywords, List.find?_isSome, List.mem_map, beq_iff_eq]

end Kind

/-! ## Fragments -/

namespace Fragment

/-- The code of a condition, which may spell its operators as words. -/
def condition (expression : Text) : Text :=
  Expression.compile (Operator.rewrite expression)

/-- The characters of code that takes a method call without parentheses around it. -/
def isSimpleChar (c : Char) : Bool :=
  isWord c || c == '$' || c == '.' || c == '[' || c == ']'

/-- The code that puts out the text form of an expression; nothing for no code. -/
def print (expression : Text) : Text :=
  let code := Expression.compile expression
  if code.isEmpty then []
  else if code.all isSimpleChar then "=".toList ++ code ++ ".stringify()".toList
  else "=(".toList ++ code ++ ").stringify()".toList

def assign (expression : Text) : Text :=
  let attributes := Attributes.read expression
  let target := (attributes.ident? "var".toList).getD Attributes.missing
  let value := (attributes.value? "value".toList).getD Attributes.missing
  "var ".toList ++ target ++ " = ".toList ++ value ++ ";".toList

/-- The code that opens a loop in which `name` counts the members of `loop`. -/
def counter (expression : Text) : Text :=
  let attributes := Attributes.read expression
  let name := (attributes.ident? "name".toList).getD Attributes.missing
  let collection := (attributes.ident? "loop".toList).getD Attributes.missing
  "for (var ".toList ++ name ++ " = 0; ".toList ++ name ++ " < ".toList ++ collection ++
    ".length; ".toList ++ name ++ "++) \x7b".toList

end Fragment

def Kind.fragment (kind : Kind) (metaMark expression : Text) : Text :=
  match kind with
  | .ifTag => "if (".toList ++ Fragment.condition expression ++ ") \x7b".toList
  | .elseIfTag => "\x7d else if (".toList ++ Fragment.condition expression ++ ") \x7b".toList
  | .elseTag => "\x7d else \x7b".toList
  | .endTag => "\x7d".toList
  | .foreachTag => (Loop.read expression).code metaMark
  | .sectionTag => Fragment.counter expression
  | .assignTag => Fragment.assign expression
  | .calcTag => Expression.compile expression ++ ";".toList
  | .printTag => Fragment.print expression
  | .breakTag => "break;".toList

end TagTemplate
