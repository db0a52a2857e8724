import TagTemplate.Proofs.Expression.Parts

/-!
# Calls joined to the text before them

The code of a call stands where the call stood, behind the text in front of it.  Three
filters start with their operand, so a call of one of them can bring a percent sign
directly behind an opening brace (`Expression.JoinsCall`); every other filter starts with
a fixed word.
-/

namespace TagTemplate

open Text

namespace Filter

def startsWithOperand : Filter → Bool
  | escape | highlight | count => true
  | _ => false

theorem code_ne_nil (filter : Filter) (operand : Text) (args : List Text) :
    filter.code operand args ≠ [] := by
  have hword : ∀ {front word : Text}, word ≠ [] → front ++ word ≠ [] :=
    fun hne => List.append_ne_nil_of_right_ne_nil _ hne
  cases filter with
  | isset =>
      unfold code issetCode
      dsimp only
      split
      · exact hword (by decide)
      · exact hword (by decide)
  | empty =>
      unfold code emptyCode
      exact hword (by decide)
  | escape | highlight | strpos | count | isArray | default => exact hword (by decide)

/-- All other code begins with an opening parenthesis. -/
theorem head?_code_of_not_startsWithOperand {filter : Filter}
    (h : filter.startsWithOperand = false) (operand : Text) (args : List Text) :
    (filter.code operand args).head? = some '(' := by
  have hword : ∀ {word : Text} (back : Text), word.head? = some '(' →
      (word ++ back).head? = some '(' := by
    intro word back hhead
    rw [List.head?_append, hhead]
    rfl
  cases filter with
  | escape | highlight | count => cases h
  | isset =>
      unfold code issetCode
      dsimp only
      split
      · simp only [List.append_assoc]
        exact hword _ (by decide)
      · unfold walkHelper
        simp only [String.toList_append, List.append_assoc]
        exact hword _ (by decide)
  | empty =>
      unfold code emptyCode emptyHelper
      simp only [String.toList_append, List.append_assoc]
      exact hword _ (by decide)
  | strpos | isArray | default =>
      unfold code
      simp only [List.append_assoc]
      exact hword _ (by decide)

/-- Only an operand can make the code of a filter begin with a percent sign. -/
theorem head?_code (filter : Filter) (operand : Text) (args : List Text) :
    (filter.code operand args).head? = some '%' ↔
      filter.startsWithOperand = true ∧ operand.head? = some '%' := by
  have hoperand : ∀ {word : Text}, (word.head?.all fun c => c != '%') = true →
      ((operand ++ word).head? = some '%' ↔ operand.head? = some '%') := by
    intro word hhead
    rw [List.head?_append]
    cases operand with
    | nil =>
        have hne : word.head? ≠ some '%' := by
          intro heq
          rw [heq] at hhead
          cases hhead
        exact iff_of_false hne (by simp)
    | cons c operand => exact Iff.rfl
  by_cases hstarts : filter.startsWithOperand = true
  · rw [and_iff_right hstarts]
    cases filter with
    | escape | highlight =>
        unfold code
        rw [List.append_assoc, List.append_assoc]
        exact hoperand rfl
    | count => exact hoperand (by decide)
    | strpos | isArray | isset | empty | default => cases hstarts
  · rw [head?_code_of_not_startsWithOperand (Bool.eq_false_iff.2 hstarts)]
    exact iff_of_false (by simp) fun h => hstarts h.1

end Filter

namespace Expression

/-- A call whose code begins with a percent sign stands directly behind an opening
brace. -/
def JoinsCall (expression : Text) : Prop :=
  ∃ found ∈ (Call.splitCalls (marks (splitPipes expression).1)).1,
    found.1.getLast? = some '\x7b' ∧ (Filter.ofName found.2.name).startsWithOperand = true ∧
      (splitOutside ',' found.2.args).1.head? = some '%'

/-- Where a call is joined, the code has the brace and the percent sign together. -/
theorem isInfix_compile_of_joinsCall {expression : Text} (h : JoinsCall expression) :
    ['\x7b', '%'] <:+: compile expression := by
  obtain ⟨found, hfound, hlast, hfilter⟩ := h
  have hhead := (Filter.head?_code _ _ (splitOutside ',' found.2.args).2).2 hfilter
  have hpart : found.1 ++ found.2.code <:+: compile expression := by
    obtain ⟨left, right, heq⟩ := List.append_of_mem hfound
    rw [compile_of_calls (List.ne_nil_of_mem hfound), Call.render, heq, List.flatMap_append,
      List.flatMap_cons, List.append_assoc, List.append_assoc]
    exact List.infix_append' _ _ _
  obtain ⟨front, hfront⟩ := List.getLast?_eq_some_iff.1 hlast
  obtain ⟨back, hback⟩ := List.head?_eq_some_iff.1 hhead
  have hcode : found.2.code = '%' :: back := hback
  refine List.IsInfix.trans ⟨front, back, ?_⟩ hpart
  rw [hfront, hcode]
  simp

end Expression

end TagTemplate
