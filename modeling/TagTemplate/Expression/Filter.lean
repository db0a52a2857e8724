import TagTemplate.Text.Basic
import TagTemplate.Text.Word

/-!
# Filters

A filter takes the code of an operand to the code that applies the filter to it;
no data is looked at.  Eight filters have a name, and any other name stands for
the filter that only puts its operand in parentheses.
-/

namespace TagTemplate

inductive Filter
  | escape
  /-- The same code as `escape`: highlighting is left to whoever renders. -/
  | highlight
  | strpos
  | count
  | isArray
  | isset
  /-- Whether the operand is zero, an empty text, `"0"`, null or undefined. -/
  | empty
  | default
  deriving DecidableEq, Repr

namespace Filter

def all : List Filter :=
  [escape, highlight, strpos, count, isArray, isset, empty, default]

def name : Filter → Text
  | escape => "escape".toList
  | highlight => "highlight".toList
  | strpos => "strpos".toList
  | count => "count".toList
  | isArray => "is_array".toList
  | isset => "isset".toList
  | empty => "empty".toList
  | default => "default".toList

/-- The filter of a name, blanks around it aside; unknown names are `default`. -/
def ofName (spelling : Text) : Filter :=
  (all.find? fun filter => filter.name == Text.trim spelling).getD default

theorem ofName_name (filter : Filter) : ofName filter.name = filter := by
  cases filter <;> decide

/-! ## Paths -/

def isSegmentChar (c : Char) : Bool :=
  isWord c || c == '$'

def isRootSegment : Text → Bool
  | [] => false
  | c :: rest => (c.isAlpha || c == '_' || c == '$') && rest.all isSegmentChar

def isSegment (segment : Text) : Bool :=
  !segment.isEmpty && segment.all isSegmentChar

/-- The segments of a dotted path such as `row.cell.0`. -/
def dottedPath? (operand : Text) : Option (Text × List Text) :=
  let (root, segments) := Text.fields '.' operand
  if isRootSegment root && segments.all isSegment then some (root, segments) else none

def quoteSegment (segment : Text) : Text :=
  "\"".toList ++ segment ++ "\"".toList

/-- The function that walks a path of segments below a root node. -/
def walkHelper : Text :=
  ("(function (node, path) \x7b " ++
    "for (var i = 1; i < path.length; i++) \x7b " ++
    "if (node === null || node === undefined || typeOf(node) != \"object\") " ++
    "\x7b return false; \x7d " ++
    "if (i == path.length - 1) " ++
    "\x7b return Object.prototype.hasOwnProperty.call(node, path[i]); \x7d " ++
    "node = node[path[i]]; \x7d " ++
    "return node !== null && node !== undefined; \x7d)").toList

/-- The test that a dotted path exists; any other operand is only compared with
null and undefined. -/
def issetCode (operand : Text) : Text :=
  let trimmed := Text.trim operand
  match dottedPath? trimmed with
  | none =>
      "(".toList ++ trimmed ++ " !== undefined && ".toList ++ trimmed ++ " !== null)".toList
  | some (root, segments) =>
      let path := List.intercalate ", ".toList ((root :: segments).map quoteSegment)
      walkHelper ++ "(".toList ++ root ++ ", [".toList ++ path ++ "])".toList

def emptyHelper : Text :=
  ("(function (v) \x7b return v === 0 || v === \"0\" || v === \"\" || " ++
    "v === null || v === undefined; \x7d)").toList

def emptyCode (operand : Text) : Text :=
  emptyHelper ++ "(".toList ++ operand ++ ")".toList

/-! ## Code -/

def code (filter : Filter) (operand : Text) (args : List Text) : Text :=
  match filter with
  | escape | highlight => operand ++ " && ".toList ++ operand ++ ".stringify()".toList
  | strpos =>
      let needle := args.head?.getD "undefined".toList
      "((".toList ++ operand ++ " + '').containsSubstring(".toList ++ needle ++ "))".toList
  | count => operand ++ ".length".toList
  | isArray => "(typeOf(".toList ++ operand ++ ") == \"object\")".toList
  | isset => issetCode operand
  | empty => emptyCode operand
  | default => "(".toList ++ operand ++ ")".toList

def apply (name operand : Text) (args : List Text) : Text :=
  (ofName name).code operand args

end Filter

end TagTemplate
