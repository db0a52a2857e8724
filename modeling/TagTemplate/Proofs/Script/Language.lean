import TagTemplate.Proofs.Script.Properties

/-!
# The language of helper functions

A helper is a function in the target language.  This is the part of the language that helpers
are written in: its texts, and what they do with JSON data.  What this part leaves out, such as
an exception, a conversion between types or a loop that goes on for too long, has no result.
The function `typeOf` comes with the page that a template is rendered on.
-/

namespace TagTemplate.Script

/-! ## Texts -/

inductive Binary
  | minus
  | less
  | equal
  | unequal
  | same
  | different
  | both
  | either

def Binary.symbol : Binary → Text
  | minus => "-".toList
  | less => "<".toList
  | equal => "==".toList
  | unequal => "!=".toList
  | same => "===".toList
  | different => "!==".toList
  | both => "&&".toList
  | either => "||".toList

inductive Expr
  | var (name : Text)
  | undefined
  | literal (value : Json)
  /-- The property whose name is computed. -/
  | item (object key : Expr)
  /-- The property of a fixed name. -/
  | field (object : Expr) (name : Text)
  | typeOf (operand : Expr)
  | hasOwn (object key : Expr)
  | binary (operator : Binary) (left right : Expr)

/-- The text of an expression, without parentheses: the operands of an operator are spelled
with operators that bind more tightly, or with the same one on the left. -/
def Expr.render : Expr → Text
  | var name => name
  | undefined => "undefined".toList
  | literal value => value.render
  | item object key => object.render ++ "[".toList ++ key.render ++ "]".toList
  | field object name => object.render ++ ".".toList ++ name
  | typeOf operand => "typeOf(".toList ++ operand.render ++ ")".toList
  | hasOwn object key =>
      "Object.prototype.hasOwnProperty.call(".toList ++ object.render ++ ", ".toList ++
        key.render ++ ")".toList
  | binary operator left right =>
      left.render ++ " ".toList ++ operator.symbol ++ " ".toList ++ right.render

inductive Stmt
  | ret (value : Expr)
  | assign (name : Text) (value : Expr)
  | cond (test : Expr) (body : Stmt)
  /-- A loop that counts a variable up from a number as long as the test holds. -/
  | count (name : Text) (first : Nat) (test : Expr) (body : Stmt)
  | seq (first second : Stmt)

def Stmt.render : Stmt → Text
  | ret value => "return ".toList ++ value.render ++ ";".toList
  | assign name value => name ++ " = ".toList ++ value.render ++ ";".toList
  | cond test body =>
      "if (".toList ++ test.render ++ ") \x7b ".toList ++ body.render ++ " \x7d".toList
  | count name first test body =>
      "for (var ".toList ++ name ++ " = ".toList ++ Json.numeral first ++ "; ".toList ++
        test.render ++ "; ".toList ++ name ++ "++) \x7b ".toList ++ body.render ++ " \x7d".toList
  | seq first second => first.render ++ " ".toList ++ second.render

structure Function where
  parameters : List Text
  body : Stmt

def Function.render (function : Function) : Text :=
  "(function (".toList ++ List.intercalate ", ".toList function.parameters ++ ") \x7b ".toList ++
    function.body.render ++ " \x7d)".toList

/-! ## Values -/

/-- A value of a script; there is none for `undefined`. -/
abbrev Value : Type :=
  Option Json

namespace Value

def truthy : Value → Bool
  | none => false
  | some .null => false
  | some (.bool value) => value
  | some (.number value) => value.coefficient != 0
  | some (.string value) => !value.isEmpty
  | some _ => true

def int? : Value → Option Int
  | some (.number ⟨value, 0⟩) => some value
  | _ => none

def name? : Value → Option Text
  | some (.string name) => some name
  | some (.number ⟨.ofNat value, 0⟩) => some (Json.numeral value)
  | _ => none

/-- The value as something that has properties. -/
def container? : Value → Option Json
  | some node => if node.isContainer then some node else none
  | none => none

/-- The two values are identical.  Objects, which have an identity of their own, are only
told apart from other values. -/
def same? : Value → Value → Option Bool
  | none, none => some true
  | some .null, some .null => some true
  | some (.bool left), some (.bool right) => some (left == right)
  | some (.number left), some (.number right) =>
      some (left.coefficient * Nat.pow 10 right.places ==
        right.coefficient * Nat.pow 10 left.places)
  | some (.string left), some (.string right) => some (left == right)
  | left, right =>
      if left.container?.isSome && right.container?.isSome then none else some false

/-- The two values are equal, if they have the same type and need no conversion. -/
def equal? : Value → Value → Option Bool
  | some (.number left), some (.number right) => same? (some (.number left)) (some (.number right))
  | some (.string left), some (.string right) => same? (some (.string left)) (some (.string right))
  | _, _ => none

end Value

theorem Value.eq_some_of_container? {value : Value} {container : Json}
    (h : value.container? = some container) : value = some container := by
  cases value with
  | none => cases h
  | some node =>
      rw [container?] at h
      split at h
      · rw [Option.some.inj h]
      · cases h

theorem Value.same?_null (value : Value) :
    value.same? (some .null) = some (value.any Json.isNull) := by
  rcases value with _ | node
  · rfl
  · cases node <;> rfl

theorem Value.same?_undefined (value : Value) : value.same? none = some value.isNone := by
  rcases value with _ | node
  · rfl
  · cases node <;> rfl

def ofBool (value : Bool) : Value :=
  some (.bool value)

def Binary.apply : Binary → Value → Value → Option Value
  | minus, left, right => do some (some (.int ((← left.int?) - (← right.int?))))
  | less, left, right => do some (ofBool ((← left.int?) < (← right.int?)))
  | equal, left, right => (left.equal? right).map ofBool
  | unequal, left, right => (left.equal? right).map fun result => ofBool !result
  | same, left, right => (left.same? right).map ofBool
  | different, left, right => (left.same? right).map fun result => ofBool !result
  | both, left, right => some (if left.truthy then right else left)
  | either, left, right => some (if left.truthy then left else right)

theorem Binary.apply_either (left right : Bool) :
    either.apply (ofBool left) (ofBool right) = some (ofBool (left || right)) := by
  cases left <;> rfl

/-! ## Runs -/

abbrev Scope : Type :=
  Text → Option Value

def Scope.set (scope : Scope) (name : Text) (value : Value) : Scope :=
  fun other => if other = name then some value else scope other

section

variable (kindOf : Value → Text)

def Expr.eval (scope : Scope) : Expr → Option Value
  | var name => scope name
  | undefined => some none
  | literal value => some (some value)
  | item object key => do
      let node ← (← object.eval scope).container?
      let name ← (← key.eval scope).name?
      some (node.property? name)
  | field object name => do
      let node ← (← object.eval scope).container?
      some (node.property? name)
  | typeOf operand => do some (some (.string (kindOf (← operand.eval scope))))
  | hasOwn object key => do
      let node ← (← object.eval scope).container?
      let name ← (← key.eval scope).name?
      some (ofBool (node.property? name).isSome)
  | binary operator left right => do
      let value ← left.eval scope
      match operator, value.truthy with
      | .both, false => some value
      | .either, true => some value
      | _, _ => operator.apply value (← right.eval scope)

@[simp] theorem Expr.eval_literal (scope : Scope) (value : Json) :
    (literal value).eval kindOf scope = some (some value) := rfl

@[simp] theorem Expr.eval_undefined (scope : Scope) : undefined.eval kindOf scope = some none := rfl

section

variable {scope : Scope} {object key : Expr} {value name : Value} {node : Json} {text : Text}

theorem Expr.eval_field (hobject : object.eval kindOf scope = some value)
    (hnode : value.container? = some node) :
    (field object text).eval kindOf scope = some (node.property? text) := by
  simp only [eval, hobject, hnode, Option.bind_eq_bind, Option.bind_some]

theorem Expr.eval_item (hobject : object.eval kindOf scope = some value)
    (hnode : value.container? = some node) (hkey : key.eval kindOf scope = some name)
    (hname : name.name? = some text) :
    (item object key).eval kindOf scope = some (node.property? text) := by
  simp only [eval, hobject, hnode, hkey, hname, Option.bind_eq_bind, Option.bind_some]

theorem Expr.eval_hasOwn (hobject : object.eval kindOf scope = some value)
    (hnode : value.container? = some node) (hkey : key.eval kindOf scope = some name)
    (hname : name.name? = some text) :
    (hasOwn object key).eval kindOf scope = some (ofBool (node.property? text).isSome) := by
  simp only [eval, hobject, hnode, hkey, hname, Option.bind_eq_bind, Option.bind_some]

end

/-- An operand that is left out would not have changed the value. -/
theorem Expr.eval_binary {scope : Scope} {operator : Binary} {left right : Expr}
    {value other : Value} (hleft : left.eval kindOf scope = some value)
    (hright : right.eval kindOf scope = some other) :
    (binary operator left right).eval kindOf scope = operator.apply value other := by
  rw [eval, hleft, hright]
  cases htruthy : value.truthy <;> cases operator <;> simp [Binary.apply, htruthy]

/-- How a statement ends: the function returns, or it goes on. -/
inductive Outcome
  | returned (value : Value)
  | next (scope : Scope)

/-- A counting loop of so many rounds at most. -/
def loop (name : Text) (test : Scope → Option Value) (body : Scope → Option Outcome) :
    Nat → Scope → Option Outcome
  | 0, _ => none
  | rounds + 1, scope => do
      if (← test scope).truthy then
        match ← body scope with
        | .returned value => some (.returned value)
        | .next scope =>
            let value ← (← scope name).int?
            loop name test body rounds (scope.set name (some (.int (value + 1))))
      else some (.next scope)

section

variable {name : Text} {test : Scope → Option Value} {body : Scope → Option Outcome}
  {scope : Scope} (rounds : Nat)

theorem loop_of_returned {value : Value} (htest : test scope = some (ofBool true))
    (hbody : body scope = some (.returned value)) :
    loop name test body (rounds + 1) scope = some (.returned value) := by
  simp only [loop, htest, hbody, Option.bind_eq_bind, Option.bind_some]
  rfl

theorem loop_of_next {next : Scope} {count : Int} (htest : test scope = some (ofBool true))
    (hbody : body scope = some (.next next)) (hcount : next name = some (some (.int count))) :
    loop name test body (rounds + 1) scope =
      loop name test body rounds (next.set name (some (.int (count + 1)))) := by
  simp only [loop, htest, hbody, hcount, Option.bind_eq_bind, Option.bind_some]
  rfl

end

/-- Runs a statement, with so many rounds of each loop at most. -/
def Stmt.run (rounds : Nat) : Stmt → Scope → Option Outcome
  | ret value, scope => (value.eval kindOf scope).map .returned
  | assign name value, scope =>
      (value.eval kindOf scope).map fun value => .next (scope.set name value)
  | cond test body, scope => do
      if (← test.eval kindOf scope).truthy then body.run rounds scope else some (.next scope)
  | count name first test body, scope =>
      loop name (fun scope => test.eval kindOf scope) (fun scope => body.run rounds scope) rounds
        (scope.set name (some (.int first)))
  | seq first second, scope => do
      match ← first.run rounds scope with
      | .returned value => some (.returned value)
      | .next scope => second.run rounds scope

theorem Stmt.run_cond {test : Expr} {scope : Scope} {value : Bool} (rounds : Nat) (body : Stmt)
    (h : test.eval kindOf scope = some (ofBool value)) :
    (cond test body).run kindOf rounds scope =
      if value then body.run kindOf rounds scope else some (.next scope) := by
  simp only [run, h, Option.bind_eq_bind, Option.bind_some]
  rfl

theorem Stmt.run_seq_of_next {first : Stmt} {scope next : Scope} {rounds : Nat} (second : Stmt)
    (h : first.run kindOf rounds scope = some (.next next)) :
    (seq first second).run kindOf rounds scope = second.run kindOf rounds next := by
  simp only [run, h, Option.bind_eq_bind, Option.bind_some]

theorem Stmt.run_seq_of_returned {first : Stmt} {scope : Scope} {value : Value} {rounds : Nat}
    (second : Stmt) (h : first.run kindOf rounds scope = some (.returned value)) :
    (seq first second).run kindOf rounds scope = some (.returned value) := by
  simp only [run, h, Option.bind_eq_bind, Option.bind_some]

/-- The values of the parameters; a variable without a value is not there. -/
def Function.scope (function : Function) (arguments : List Value) : Scope :=
  fun name => (function.parameters.zip arguments).lookup name

/-- Calls a function; without a return it gives `undefined`. -/
def Function.call (rounds : Nat) (function : Function) (arguments : List Value) :
    Option Value := do
  match ← function.body.run kindOf rounds (function.scope arguments) with
  | .returned value => some value
  | .next _ => some none

theorem Function.call_of_returned {function : Function} {arguments : List Value} {value : Value}
    {rounds : Nat}
    (h : function.body.run kindOf rounds (function.scope arguments) = some (.returned value)) :
    function.call kindOf rounds arguments = some value := by
  simp only [call, h, Option.bind_eq_bind, Option.bind_some]

end

end TagTemplate.Script
