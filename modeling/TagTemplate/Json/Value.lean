import TagTemplate.Table
import TagTemplate.Text.Basic

/-!
# JSON data

The data that templates are rendered with.  Besides the type this module holds the two
questions that generated code asks of data, whether a dotted path exists and whether a
value is empty, and the compact text of a value.
-/

namespace TagTemplate

/-- The decimal number `coefficient / 10 ^ places`. -/
structure Decimal where
  coefficient : Int
  places : Nat
  deriving DecidableEq, Repr

namespace Decimal

/-- The double nearest to the number is zero: the number is at most half of the smallest
positive double, `2 ^ -1074`.  A number with far more places than digits is smaller than
that, and its power of ten is not looked at. -/
def isZeroAsDouble (number : Decimal) : Bool :=
  let magnitude := number.coefficient.natAbs
  magnitude == 0 || magnitude.log2 + 1075 < number.places ||
    magnitude * Nat.pow 2 1075 ≤ Nat.pow 10 number.places

/-- The digits of a number that lies below one, with at least `places` digits. -/
def padded (places : Nat) (digits : Text) : Text :=
  List.replicate (places - digits.length) '0' ++ digits

def render (number : Decimal) : Text :=
  let sign : Text := if number.coefficient < 0 then ['-'] else []
  let digits := padded (number.places + 1) (Nat.toDigits 10 number.coefficient.natAbs)
  let whole := digits.length - number.places
  let fraction := digits.drop whole
  sign ++ digits.take whole ++ (if fraction.isEmpty then [] else '.' :: fraction)

end Decimal

/-- A JSON value.  Of two fields with the same name the first counts. -/
inductive Json
  | null
  | bool (value : Bool)
  | number (value : Decimal)
  | string (value : Text)
  | array (items : List Json)
  | object (fields : List (Text × Json))
  deriving Inhabited

namespace Json

def isNull : Json → Bool
  | null => true
  | _ => false

/-! ## Paths -/

/-- The index that a path segment names in an array: decimal digits, perhaps after a
plus sign.  Leading zeros do not matter. -/
def index? (segment : Text) : Option Nat :=
  let digits := (Text.after? ['+'] segment).getD segment
  if digits.isEmpty || !digits.all Char.isDigit then none
  else some (digits.foldl (fun value digit => 10 * value + (digit.toNat - '0'.toNat)) 0)

def child? : Json → Text → Option Json
  | object fields, segment => Table.valueIn? segment fields
  | array items, segment => (index? segment).bind fun index => items[index]?
  | _, _ => none

def hasPath : Json → List Text → Bool
  | _, [] => true
  | node, segment :: segments => (node.child? segment).any fun child => child.hasPath segments

/-- The dotted path exists.  Its first segment stands for the root itself, which is set
unless it is `null`; what the last segment names may be `null`. -/
def isset (root : Json) (path : Text) : Bool :=
  match (Text.fields '.' path).2 with
  | [] => !root.isNull
  | segments => root.hasPath segments

/-- A value counts as empty if it is not there, `null`, a number that is zero, or one of
the texts `0` and the empty one. -/
def isEmpty : Option Json → Bool
  | none => true
  | some null => true
  | some (number value) => value.isZeroAsDouble
  | some (string value) => value == [] || value == ['0']
  | some _ => false

/-! ## Compact text -/

def hexByte (n : Nat) : Text :=
  [Nat.digitChar (n / 16), Nat.digitChar (n % 16)]

def escapeChar (c : Char) : Text :=
  if c = '\x22' then "\\\"".toList
  else if c = '\\' then "\\\\".toList
  else if c = '\x08' then "\\b".toList
  else if c = '\x0c' then "\\f".toList
  else if c = '\n' then "\\n".toList
  else if c = '\r' then "\\r".toList
  else if c = '\t' then "\\t".toList
  else if c.toNat < 0x20 then "\\u00".toList ++ hexByte c.toNat
  else [c]

def quote (text : Text) : Text :=
  ['\x22'] ++ text.flatMap escapeChar ++ ['\x22']

/-- The text of an object whose fields are already texts, in the order of their names. -/
def renderObject (fields : List (Text × Text)) : Text :=
  let ordered := (Table.ofList fields).entries
  let parts := ordered.map fun (name, value) => quote name ++ [':'] ++ value
  ['\x7b'] ++ List.intercalate [','] parts ++ ['\x7d']

mutual

/-- The text of a value without blanks; the fields of objects are in the order of their
names. -/
def render : Json → Text
  | null => "null".toList
  | bool true => "true".toList
  | bool false => "false".toList
  | number value => value.render
  | string value => quote value
  | array items => ['['] ++ List.intercalate [','] (renderItems items) ++ [']']
  | object fields => renderObject (renderFields fields)

def renderItems : List Json → List Text
  | [] => []
  | item :: items => render item :: renderItems items

def renderFields : List (Text × Json) → List (Text × Text)
  | [] => []
  | (name, value) :: fields => (name, render value) :: renderFields fields

end

end Json

end TagTemplate
