import TagTemplate.Proofs.Expression.Decomposition
import TagTemplate.Proofs.Text.Cuts

/-!
# Chains of pipes

A pipe and the filter behind it can be put after any expression whose literals are closed.
What the expression was compiled to is then the operand of the new filter
(`Expression.compile_append_pipe`), so a chain is applied from left to right.  If the operand
in front of all pipes holds a call, no filter of the chain is applied.
-/

namespace TagTemplate

open Text

namespace Text

theorem getLast?_marks (text : Text) : (marks text).getLast?.map Glyph.char = text.getLast? := by
  rw [← List.getLast?_map]
  exact congrArg List.getLast? (ofGlyphs_marks text)

theorem head?_marks (text : Text) : (marks text).head?.map Glyph.char = text.head? := by
  rw [← List.head?_map]
  exact congrArg List.head? (ofGlyphs_marks text)

/-- The pipes of two texts with a pipe between them. -/
theorem splitPipes_append_bar {front back : Text} (hclosed : Closed front)
    (hlast : front.getLast? ≠ some '|') (hhead : back.head? ≠ some '|') :
    splitPipes (front ++ '|' :: back) = ((splitPipes front).1,
      (splitPipes front).2 ++ (splitPipes back).1 :: (splitPipes back).2) := by
  have hbar : marks ('|' :: back) = ⟨'|', false⟩ :: marks back := rfl
  have hlastGlyph : ∀ last ∈ (marks front).getLast?, last.char ≠ '|' := by
    intro last hmem hchar
    apply hlast
    rw [← getLast?_marks, show (marks front).getLast? = some last from hmem, ← hchar]
    rfl
  have hheadGlyph : ∀ first ∈ (marks back).head?, first.char ≠ '|' := by
    intro first hmem hchar
    apply hhead
    rw [← head?_marks, show (marks back).head? = some first from hmem, ← hchar]
    rfl
  -- A character that is no bar is no pipe, whatever stands beside it.
  have hother : ∀ {glyph : Glyph}, glyph.char ≠ '|' → ∀ before next,
      isPipe before glyph next = false := by
    intro glyph hchar before next
    rw [Bool.eq_false_iff, ne_eq, isPipe_iff]
    rintro ⟨rfl, -⟩
    exact hchar rfl
  have hpipe : isPipe ((marks front).getLast?.or none) ⟨'|', false⟩ (marks back).head? = true := by
    rw [Option.or_none, isPipe_iff]
    exact ⟨rfl, hlastGlyph, hheadGlyph⟩
  have hback : cutWhere isPipe (some ⟨'|', false⟩) (marks back) =
      cutWhere isPipe none (marks back) := by
    apply cutWhere_congr_before
    intro first hmem next
    rw [hother (hheadGlyph first hmem), hother (hheadGlyph first hmem)]
  have hcut := cutWhere_append_cons hpipe fun last hmem other => by
    rw [hother (hlastGlyph last hmem), hother (hlastGlyph last hmem)]
  rw [splitPipes, hclosed.marks_append, hbar, hcut, hback]
  simp [splitPipes, trimParts]

end Text

namespace Expression

/-- Outside literals an opening parenthesis has a closing one behind it. -/
def HasCall (text : Text) : Prop :=
  ∃ front back, marks text = front ++ ⟨'(', false⟩ :: back ∧ ⟨')', false⟩ ∈ back

theorem hasCall_iff {text : Text} :
    HasCall text ↔ (Call.splitCalls (marks text)).1 ≠ [] := by
  have hnone : ¬ HasCall text ↔ Call.next? (marks text) = none := by
    rw [Call.next?_eq_none_iff]
    constructor
    · exact fun h front back heq hclose => h ⟨front, back, heq, hclose⟩
    · rintro h ⟨front, back, heq, hclose⟩
      exact h front back heq hclose
  rw [← not_iff_not, hnone, ne_eq, not_not]
  cases hnext : Call.next? (marks text) with
  | none => simp [Call.splitCalls_of_next?_eq_none hnext]
  | some found =>
      obtain ⟨before, call, after⟩ := found
      simp [Call.splitCalls_of_next? hnext]

instance (text : Text) : Decidable (HasCall text) :=
  decidable_of_iff _ hasCall_iff.symm

theorem compile_of_hasCall {expression : Text} (h : HasCall (splitPipes expression).1) :
    compile expression = Call.render (Call.splitCalls (marks (splitPipes expression).1)).1
      (Call.splitCalls (marks (splitPipes expression).1)).2 :=
  compile_of_calls (hasCall_iff.1 h)

theorem compile_of_not_hasCall {expression : Text} (h : ¬ HasCall (splitPipes expression).1) :
    compile expression = (splitPipes expression).2.foldl pipe (splitPipes expression).1 := by
  rw [hasCall_iff, ne_eq, not_not] at h
  exact compile_of_no_calls h

theorem pipe_eq {operand spec head tail name : Text} {args : List Text}
    (hcut : CutsAtBlank spec head tail) (hsplit : IsSplitAt ':' head (name :: args)) :
    pipe operand spec = Filter.apply name operand args ++ tail := by
  rw [pipe, hcut.splitAtBlank_eq]
  simp only [splitOutside_eq_iff.2 hsplit]

/-- Behind a new pipe stands one filter with its arguments, and text that is no part of it.
The filter is applied to the code of the expression, unless the operand of the expression
has a call; then the pipe changes nothing. -/
theorem compile_append_pipe {expression spec : Text} (hclosed : Closed expression)
    (hlast : expression.getLast? ≠ some '|') (hhead : spec.head? ≠ some '|')
    (hpipe : ¬ HasPipe spec) :
    (HasCall (splitPipes expression).1 →
      compile (expression ++ '|' :: spec) = compile expression) ∧
    (∃ head tail name args,
      CutsAtBlank (trim spec) head tail ∧ IsSplitAt ':' head (name :: args)) ∧
    (¬ HasCall (splitPipes expression).1 → ∀ head tail name args,
      CutsAtBlank (trim spec) head tail → IsSplitAt ':' head (name :: args) →
        compile (expression ++ '|' :: spec) =
          Filter.apply name (compile expression) args ++ tail) := by
  have hpipes := splitPipes_append_bar hclosed hlast hhead
  rw [splitPipes_eq_trim hpipe] at hpipes
  have hoperand : (splitPipes (expression ++ '|' :: spec)).1 = (splitPipes expression).1 := by
    rw [hpipes]
  have hfilters : (splitPipes (expression ++ '|' :: spec)).2 =
      (splitPipes expression).2 ++ [trim spec] := by
    rw [hpipes]
  refine ⟨fun hcall => ?_, ?_, fun hcall head tail name args hcut hsplit => ?_⟩
  · rw [compile_of_hasCall hcall, compile_of_hasCall (hoperand ▸ hcall), hoperand]
  · exact ⟨_, _, _, _, cutsAtBlank_splitAtBlank (trim spec), splitOutside_eq_iff.1 rfl⟩
  · calc
      compile (expression ++ '|' :: spec) =
          ((splitPipes expression).2 ++ [trim spec]).foldl pipe (splitPipes expression).1 := by
        rw [compile_of_not_hasCall (hoperand ▸ hcall), hoperand, hfilters]
      _ = pipe ((splitPipes expression).2.foldl pipe (splitPipes expression).1) (trim spec) := by
        rw [List.foldl_append]
        rfl
      _ = pipe (compile expression) (trim spec) := by
        rw [← compile_of_not_hasCall hcall]
      _ = Filter.apply name (compile expression) args ++ tail := pipe_eq hcut hsplit

/-- The expression holds a doubled bar and quoted bars, blanks and colons; the new pipe has a
quoted colon, a literal that is never closed, and code behind its filter. -/
theorem compile_append_pipe_of_open_literal :
    let expression := " a || b | strpos:'|: ' ".toList
    let spec := " default : 'x:y' || c > 'z|".toList
    Closed expression ∧ expression.getLast? ≠ some '|' ∧ spec.head? ≠ some '|' ∧
      ¬ HasPipe spec ∧ ¬ HasCall (splitPipes expression).1 ∧
      CutsAtBlank (trim spec) "default".toList " : 'x:y' || c > 'z|".toList ∧
      IsSplitAt ':' "default".toList ["default".toList] ∧
      compile (expression ++ '|' :: spec) =
        Filter.apply "default".toList (compile expression) [] ++
          " : 'x:y' || c > 'z|".toList := by
  intro expression spec
  have hclosed : Closed expression := by decide +kernel
  have hlast : expression.getLast? ≠ some '|' := by decide +kernel
  have hhead : spec.head? ≠ some '|' := by decide +kernel
  have hpipe : ¬ HasPipe spec := by decide +kernel
  have hcall : ¬ HasCall (splitPipes expression).1 := by decide +kernel
  have hcut : CutsAtBlank (trim spec) "default".toList " : 'x:y' || c > 'z|".toList :=
    splitAtBlank_eq_iff.1 (by decide +kernel)
  have hsplit : IsSplitAt ':' "default".toList ["default".toList] :=
    splitOutside_eq_iff.1 (by decide +kernel)
  obtain ⟨-, -, happly⟩ := compile_append_pipe hclosed hlast hhead hpipe
  exact ⟨hclosed, hlast, hhead, hpipe, hcall, hcut, hsplit, happly hcall _ _ _ _ hcut hsplit⟩

end Expression

end TagTemplate
