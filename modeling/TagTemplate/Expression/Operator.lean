import TagTemplate.Text.Quoted
import TagTemplate.Text.Word

/-!
# Word operators

Conditions may spell their operators as words: `a eq 1 and not b`.  Each maximal
run of word characters outside literals that is one of the twelve words becomes
the symbol it stands for; everything else is kept.
-/

namespace TagTemplate

inductive Operator
  | equal
  | unequal
  | atLeast
  | atMost
  | above
  | below
  | both
  | either
  | negation
  deriving DecidableEq, Repr

namespace Operator

def symbol : Operator → Text
  | equal => "==".toList
  | unequal => "!=".toList
  | atLeast => ">=".toList
  | atMost => "<=".toList
  | above => ">".toList
  | below => "<".toList
  | both => "&&".toList
  | either => "||".toList
  | negation => "!".toList

def wordTable : List (Text × Operator) := [
  ("eq".toList, equal),
  ("neq".toList, unequal),
  ("ne".toList, unequal),
  ("gte".toList, atLeast),
  ("ge".toList, atLeast),
  ("lte".toList, atMost),
  ("le".toList, atMost),
  ("gt".toList, above),
  ("lt".toList, below),
  ("and".toList, both),
  ("or".toList, either),
  ("not".toList, negation)]

def ofWord? (word : Text) : Option Operator :=
  wordTable.lookup word

/-- The symbol for an operator word, and any other word as it is. -/
def symbolize (word : Text) : Text :=
  ((ofWord? word).map symbol).getD word

/-- Replaces the operator words of a run that holds no literal. -/
def symbolizeRun : Text → Text
  | [] => []
  | c :: text =>
      if isWord c then
        symbolize (c :: text.takeWhile isWord) ++ symbolizeRun (text.dropWhile isWord)
      else c :: symbolizeRun text
termination_by text => text.length
decreasing_by
  · exact Nat.lt_succ_of_le (List.dropWhile_sublist _).length_le
  · simp

/-- Replaces the operator words outside literals by their symbols. -/
def rewrite (expression : Text) : Text :=
  Text.mapOutside symbolizeRun expression

end Operator

end TagTemplate
