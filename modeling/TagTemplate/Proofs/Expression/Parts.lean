import TagTemplate.Expression.Compile
import TagTemplate.Proofs.Text.Names
import TagTemplate.Proofs.Text.Parts

/-!
# Parts of an expression

The calls of an operand and the text between them, put back together, are the operand
(`source_splitCalls`), so each of them stands in the operand as it is.  The segments of a
dotted path have no characters but those of paths (`dottedPath?_chars`).
-/

namespace TagTemplate.Filter

open Text

theorem isSegmentChar_of_isAlpha {c : Char} (h : c.isAlpha = true) :
    isSegmentChar c = true := by
  have hword : isAsciiWord c = true := by simp [isAsciiWord, Char.isAlphanum, h]
  simp [isSegmentChar, isWord_of_isAsciiWord hword]

/-- The segments of a dotted path and the dots are all there is in it. -/
theorem dottedPath?_chars {operand root : Text} {segments : List Text}
    (h : dottedPath? operand = some (root, segments)) :
    (∀ c ∈ operand, isSegmentChar c = true ∨ c = '.') ∧
      ∀ segment ∈ root :: segments, ∀ c ∈ segment, c ∈ operand := by
  simp only [dottedPath?] at h
  split at h
  · rename_i hpath
    obtain ⟨rfl, rfl⟩ := Prod.mk.inj (Option.some.inj h)
    rw [Bool.and_eq_true] at hpath
    refine ⟨?_, fun segment hsegment c hc => mem_of_mem_fields hsegment hc⟩
    intro c hc
    rcases exists_mem_fields '.' hc with hdot | ⟨field, hfield, hmem⟩
    · exact Or.inr hdot
    · left
      rcases List.mem_cons.1 hfield with rfl | hfield
      · have hroot := hpath.1
        cases hfields : (fields '.' operand).1 with
        | nil =>
            rw [hfields] at hmem
            cases hmem
        | cons d rest =>
            rw [hfields] at hroot hmem
            simp only [isRootSegment, Bool.and_eq_true, List.all_eq_true] at hroot
            rcases List.mem_cons.1 hmem with rfl | hmem
            · have hfirst := hroot.1
              simp only [Bool.or_eq_true, beq_iff_eq] at hfirst
              rcases hfirst with (halpha | rfl) | rfl
              · exact isSegmentChar_of_isAlpha halpha
              · decide
              · decide
            · exact hroot.2 c hmem
      · have hsegment := List.all_eq_true.1 hpath.2 field hfield
        simp only [isSegment, Bool.and_eq_true, List.all_eq_true] at hsegment
        exact hsegment.2 c hmem
  · cases h

theorem isBlank_of_isSegmentChar {c : Char} (h : isSegmentChar c = true) : isBlank c = false := by
  cases hblank : isBlank c with
  | false => rfl
  | true =>
      rw [isSegmentChar, isWord_of_isBlank hblank, Bool.false_or, beq_iff_eq] at h
      rw [h] at hblank
      exact absurd hblank (by decide)

theorem trim_of_dottedPath? {operand root : Text} {segments : List Text}
    (h : dottedPath? operand = some (root, segments)) : trim operand = operand := by
  refine trim_of_no_blank ?_
  intro c hc
  rcases (dottedPath?_chars h).1 c hc with hsegment | rfl
  · exact isBlank_of_isSegmentChar hsegment
  · decide

end TagTemplate.Filter

namespace TagTemplate.Call

open Text

def source (call : Call) : Text :=
  call.name ++ call.gap ++ "(".toList ++ call.args ++ ")".toList

theorem eq_of_next? {glyphs after : List Glyph} {before : Text} {call : Call}
    (h : next? glyphs = some (before, call, after)) :
    ofGlyphs glyphs = before ++ call.source ++ ofGlyphs after := by
  obtain ⟨⟨front, inside⟩, hopen, h⟩ := Option.bind_eq_some_iff.1 h
  obtain ⟨⟨args, rest⟩, hclose, h⟩ := Option.map_eq_some_iff.1 h
  simp only [Prod.mk.injEq] at h
  obtain ⟨hbefore, hcall, hafter⟩ := h
  subst hbefore hcall hafter
  rw [(eq_of_cutAtBare? hopen).1, (eq_of_cutAtBare? hclose).1]
  have hname := splitName_append (ofGlyphs front)
  rw [ofGlyphs_append, ofGlyphs_cons, ofGlyphs_append, ofGlyphs_cons]
  conv_lhs => rw [← hname]
  simp [source]

theorem splitCalls_of_next? {glyphs after : List Glyph} {before : Text} {call : Call}
    (h : next? glyphs = some (before, call, after)) :
    splitCalls glyphs = ((before, call) :: (splitCalls after).1, (splitCalls after).2) := by
  rw [splitCalls]
  split
  · rename_i h'
    rw [h] at h'
    cases h'
  · rename_i before' call' after' h'
    rw [h] at h'
    simp only [Option.some.injEq, Prod.mk.injEq] at h'
    obtain ⟨rfl, rfl, rfl⟩ := h'
    rfl

theorem splitCalls_of_next?_eq_none {glyphs : List Glyph} (h : next? glyphs = none) :
    splitCalls glyphs = ([], ofGlyphs glyphs) := by
  rw [splitCalls]
  split
  · rfl
  · rename_i h'
    rw [h] at h'
    cases h'

/-- The calls and the text around them are the marked text. -/
theorem source_splitCalls (glyphs : List Glyph) :
    ((splitCalls glyphs).1.flatMap fun (before, call) => before ++ call.source) ++
      (splitCalls glyphs).2 = ofGlyphs glyphs := by
  induction hlength : glyphs.length using Nat.strong_induction_on generalizing glyphs with
  | _ length ih =>
      subst hlength
      cases hnext : next? glyphs with
      | none =>
          rw [splitCalls_of_next?_eq_none hnext]
          rfl
      | some found =>
          obtain ⟨before, call, after⟩ := found
          have hafter := ih _ (length_of_next? hnext) after rfl
          rw [splitCalls_of_next? hnext, eq_of_next? hnext, ← hafter]
          simp

theorem isInfix_of_mem_splitCalls {glyphs : List Glyph} {before : Text} {call : Call}
    (h : (before, call) ∈ (splitCalls glyphs).1) :
    before <:+: ofGlyphs glyphs ∧ call.args <:+: ofGlyphs glyphs := by
  obtain ⟨left, right, heq⟩ := List.append_of_mem h
  have hsource := source_splitCalls glyphs
  rw [heq] at hsource
  have hpart : before ++ call.source <:+: ofGlyphs glyphs := by
    rw [← hsource, List.flatMap_append, List.flatMap_cons, List.append_assoc, List.append_assoc]
    exact List.infix_append' _ _ _
  refine ⟨(List.infix_append_left).trans hpart, List.IsInfix.trans ?_ hpart⟩
  exact ⟨before ++ (call.name ++ call.gap ++ "(".toList), ")".toList, by simp [source]⟩

theorem isSuffix_splitCalls (glyphs : List Glyph) : (splitCalls glyphs).2 <:+ ofGlyphs glyphs :=
  ⟨_, source_splitCalls glyphs⟩

theorem render_cons (found : Text × Call) (calls : List (Text × Call)) (rest : Text) :
    render (found :: calls) rest = found.1 ++ found.2.code ++ render calls rest := by
  simp [render]

end TagTemplate.Call

namespace TagTemplate.Expression

open Text

/-- The operand of an expression, and the filters of its pipes. -/
theorem compile_of_no_calls {expression : Text}
    (h : (Call.splitCalls (marks (splitPipes expression).1)).1 = []) :
    compile expression = (splitPipes expression).2.foldl pipe (splitPipes expression).1 := by
  unfold compile
  rcases hcalls : Call.splitCalls (marks (splitPipes expression).1) with ⟨calls, rest⟩
  rw [hcalls] at h
  simp only at h
  subst h
  simp only [hcalls]

theorem compile_of_calls {expression : Text}
    (h : (Call.splitCalls (marks (splitPipes expression).1)).1 ≠ []) :
    compile expression =
      Call.render (Call.splitCalls (marks (splitPipes expression).1)).1
        (Call.splitCalls (marks (splitPipes expression).1)).2 := by
  unfold compile
  rcases hcalls : Call.splitCalls (marks (splitPipes expression).1) with ⟨_ | ⟨first, others⟩, rest⟩
  · rw [hcalls] at h
    exact absurd rfl h
  · simp only [hcalls]

end TagTemplate.Expression
