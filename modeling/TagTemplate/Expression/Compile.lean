import TagTemplate.Expression.Filter
import TagTemplate.Text.Quoted

/-!
# Expressions

An expression is an operand with a chain of pipes, `operand|filter:arg|filter`.  The filters
are applied from left to right.

An operand may contain calls.  A call `name(args)` applies the filter `name` to its first
argument.  The name may be empty, as it is for a parenthesised group, and the arguments run to
the first closing parenthesis outside literals.  An operand that contains a call has its calls
compiled instead, and then the chain is not looked at.
-/

namespace TagTemplate

/-- A call as it is written: a name, the blanks before the parenthesis, and what
stands between the parentheses. -/
structure Call where
  name : Text
  gap : Text
  args : Text
  deriving DecidableEq, Repr

namespace Call

def isNameChar (c : Char) : Bool :=
  c.isAlphanum || c == '_'

/-- Cuts the text before an opening parenthesis into what is no part of the call,
the name, and the blanks after the name. -/
def splitName (front : Text) : Text × Text × Text :=
  let fromBlanks := front.reverse
  let fromName := fromBlanks.dropWhile isBlank
  ((fromName.dropWhile isNameChar).reverse, (fromName.takeWhile isNameChar).reverse,
    (fromBlanks.takeWhile isBlank).reverse)

theorem splitName_append (front : Text) :
    (splitName front).1 ++ (splitName front).2.1 ++ (splitName front).2.2 = front := by
  simp only [splitName]
  rw [← List.reverse_append, List.takeWhile_append_dropWhile, ← List.reverse_append,
    List.takeWhile_append_dropWhile, List.reverse_reverse]

/-- The first call of marked text: the text before it, the call, and the marked
text after it. -/
def next? (glyphs : List Text.Glyph) : Option (Text × Call × List Text.Glyph) :=
  (Text.cutAtBare? '(' glyphs).bind fun (front, inside) =>
    (Text.cutAtBare? ')' inside).map fun (args, after) =>
      let (before, name, gap) := splitName (Text.ofGlyphs front)
      (before, ⟨name, gap, Text.ofGlyphs args⟩, after)

theorem length_of_next? {glyphs after : List Text.Glyph} {before : Text} {call : Call}
    (h : next? glyphs = some (before, call, after)) : after.length < glyphs.length := by
  obtain ⟨⟨front, inside⟩, hopen, h⟩ := Option.bind_eq_some_iff.1 h
  obtain ⟨⟨args, rest⟩, hclose, h⟩ := Option.map_eq_some_iff.1 h
  simp only [Prod.mk.injEq] at h
  rw [(Text.eq_of_cutAtBare? hopen).1, (Text.eq_of_cutAtBare? hclose).1, h.2.2]
  simp only [List.length_append, List.length_cons]
  omega

/-- The calls of marked text, each with the text before it, and the text after the
last call. -/
def splitCalls (glyphs : List Text.Glyph) : List (Text × Call) × Text :=
  match h : next? glyphs with
  | none => ([], Text.ofGlyphs glyphs)
  | some (before, call, after) =>
      have := length_of_next? h
      let (calls, rest) := splitCalls after
      ((before, call) :: calls, rest)
termination_by glyphs.length
decreasing_by assumption

def code (call : Call) : Text :=
  let (operand, args) := Text.splitOutside ',' call.args
  Filter.apply call.name operand args

def render (calls : List (Text × Call)) (rest : Text) : Text :=
  (calls.flatMap fun (before, call) => before ++ call.code) ++ rest

end Call

namespace Expression

/-- Applies one `name:arg:arg` filter to the code of an operand.  What follows the
first blank outside literals is no part of the filter and is put after its code. -/
def pipe (operand spec : Text) : Text :=
  let (head, tail) := Text.splitAtBlank spec
  let (name, args) := Text.splitOutside ':' head
  Filter.apply name operand args ++ tail

def compile (expression : Text) : Text :=
  let (operand, filters) := Text.splitPipes expression
  match Call.splitCalls (Text.marks operand) with
  | ([], _) => filters.foldl pipe operand
  | (calls, rest) => Call.render calls rest

end Expression

end TagTemplate
