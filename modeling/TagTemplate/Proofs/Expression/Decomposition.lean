import TagTemplate.Proofs.Expression.Parts
import TagTemplate.Proofs.Text.Marks

/-!
# The calls of an operand

Which parts of an operand are calls can be said without a search: a call opens with the
first bare parenthesis behind the call before it, its name and the blanks behind the name
reach as far back as they can, and it closes with the first bare parenthesis after that
(`Call.Decomposes`).  An operand decomposes in one way only, and compiling it replaces the
calls and copies everything else (`Expression.compile_of_decomposes`).
-/

namespace TagTemplate

open Text

namespace Call

/-! ## Names -/

/-- The text ends with a name and blanks, and neither can be made longer. -/
structure EndsWithName (text before name gap : Text) : Prop where
  eq : text = before ++ name ++ gap
  isName : ∀ c ∈ name, isNameChar c = true
  isGap : AllBlank gap
  nameMaximal : ∀ c ∈ before.getLast?, isNameChar c = false
  gapMaximal : ∀ c ∈ (before ++ name).getLast?, isBlank c = false

theorem rdropWhile_append_eq {p : Char → Bool} {front back : Text}
    (hback : ∀ c ∈ back, p c = true) (hfront : ∀ c ∈ front.getLast?, p c = false) :
    (front ++ back).rdropWhile p = front ∧ (front ++ back).rtakeWhile p = back := by
  have hpos : ∀ c ∈ back.reverse, p c = true := fun c hc => hback c (List.mem_reverse.1 hc)
  have hstop : front.reverse.dropWhile p = front.reverse ∧ front.reverse.takeWhile p = [] := by
    rw [← List.head?_reverse] at hfront
    cases hreverse : front.reverse with
    | nil => simp
    | cons c rest => simp [hfront c (by rw [hreverse]; rfl)]
  rw [List.rdropWhile, List.rtakeWhile, List.reverse_append,
    List.dropWhile_append_of_pos hpos, List.takeWhile_append_of_pos hpos, hstop.1, hstop.2]
  simp

theorem getLast?_rdropWhile (p : Char → Bool) (text : Text) :
    ∀ c ∈ (text.rdropWhile p).getLast?, p c = false := by
  intro c hc
  have hne : text.rdropWhile p ≠ [] := by
    intro hnil
    rw [hnil] at hc
    cases hc
  have hlast := List.rdropWhile_last_not p text hne
  rw [List.getLast?_eq_some_getLast hne] at hc
  rw [← Option.some.inj hc]
  simpa using hlast

theorem splitName_eq (front : Text) :
    splitName front = ((front.rdropWhile isBlank).rdropWhile isNameChar,
      (front.rdropWhile isBlank).rtakeWhile isNameChar, front.rtakeWhile isBlank) := by
  simp [splitName, List.rdropWhile, List.rtakeWhile]

theorem splitName_eq_iff {front before name gap : Text} :
    splitName front = (before, name, gap) ↔ EndsWithName front before name gap := by
  constructor
  · intro h
    have htext := splitName_append front
    rw [h] at htext
    simp only [splitName_eq, Prod.mk.injEq] at h
    obtain ⟨rfl, rfl, rfl⟩ := h
    refine ⟨htext.symm, fun c hc => List.mem_rtakeWhile_imp hc,
      fun c hc => List.mem_rtakeWhile_imp hc, getLast?_rdropWhile _ _, ?_⟩
    rw [List.rdropWhile_append_rtakeWhile]
    exact getLast?_rdropWhile _ _
  · rintro ⟨rfl, hname, hgap, hnameMaximal, hgapMaximal⟩
    obtain ⟨hdrop, htake⟩ := rdropWhile_append_eq hgap hgapMaximal
    obtain ⟨hdrop', htake'⟩ := rdropWhile_append_eq hname hnameMaximal
    rw [splitName_eq, hdrop, htake, hdrop', htake']

/-! ## Calls one behind the other -/

/-- Marked text is made of calls, each with the text before it, and a rest without calls. -/
inductive Decomposes : List Glyph → List (Text × Call) → Text → Prop
  | rest {glyphs : List Glyph}
      (none : ∀ front back, glyphs = front ++ ⟨'(', false⟩ :: back → ⟨')', false⟩ ∉ back) :
      Decomposes glyphs [] (ofGlyphs glyphs)
  | call {front args after : List Glyph} {before name gap : Text}
      {calls : List (Text × Call)} {rest : Text}
      (opening : ⟨'(', false⟩ ∉ front)
      (named : EndsWithName (ofGlyphs front) before name gap)
      (closing : ⟨')', false⟩ ∉ args)
      (more : Decomposes after calls rest) :
      Decomposes (front ++ ⟨'(', false⟩ :: (args ++ ⟨')', false⟩ :: after))
        ((before, ⟨name, gap, ofGlyphs args⟩) :: calls) rest

theorem next?_eq_none_iff {glyphs : List Glyph} :
    next? glyphs = none ↔
      ∀ front back, glyphs = front ++ ⟨'(', false⟩ :: back → ⟨')', false⟩ ∉ back := by
  rw [next?, Option.bind_eq_none_iff]
  constructor
  · rintro h front back rfl hclose
    -- The first bare parenthesis may stand further to the front; it is closed as well.
    cases hcut : cutAtBare? '(' (front ++ ⟨'(', false⟩ :: back) with
    | none =>
        rw [cutAtBare?_eq_none_iff] at hcut
        exact hcut (by simp)
    | some parts =>
        have hnone := h parts hcut
        rw [Option.map_eq_none_iff, cutAtBare?_eq_none_iff] at hnone
        exact hnone ((isSuffix_of_cutAtBare? hcut).subset hclose)
  · rintro h ⟨front, inside⟩ hcut
    rw [Option.map_eq_none_iff, cutAtBare?_eq_none_iff]
    exact h front inside (cutAtBare?_eq_some_iff.1 hcut).1

theorem next?_eq_some_iff {glyphs after : List Glyph} {before : Text} {call : Call} :
    next? glyphs = some (before, call, after) ↔
      ∃ front args, glyphs = front ++ ⟨'(', false⟩ :: (args ++ ⟨')', false⟩ :: after) ∧
        ⟨'(', false⟩ ∉ front ∧ EndsWithName (ofGlyphs front) before call.name call.gap ∧
        ⟨')', false⟩ ∉ args ∧ call.args = ofGlyphs args := by
  constructor
  · intro h
    obtain ⟨⟨front, inside⟩, hopen, h⟩ := Option.bind_eq_some_iff.1 h
    obtain ⟨⟨args, rest⟩, hclose, h⟩ := Option.map_eq_some_iff.1 h
    simp only [Prod.mk.injEq] at h
    obtain ⟨hbefore, hcall, rfl⟩ := h
    obtain ⟨rfl, hfront⟩ := cutAtBare?_eq_some_iff.1 hopen
    obtain ⟨rfl, hargs⟩ := cutAtBare?_eq_some_iff.1 hclose
    subst hcall hbefore
    exact ⟨front, args, rfl, hfront, splitName_eq_iff.1 rfl, hargs, rfl⟩
  · rintro ⟨front, args, rfl, hfront, hname, hargs, heq⟩
    obtain ⟨name, gap, text⟩ := call
    simp only at hname heq
    subst heq
    rw [next?, cutAtBare?_append _ hfront, Option.bind_some]
    simp only [cutAtBare?_append _ hargs, Option.map_some, splitName_eq_iff.2 hname]

theorem Decomposes.splitCalls_eq {glyphs : List Glyph} {calls : List (Text × Call)} {rest : Text}
    (h : Decomposes glyphs calls rest) : splitCalls glyphs = (calls, rest) := by
  induction h with
  | rest hnone => exact splitCalls_of_next?_eq_none (next?_eq_none_iff.2 hnone)
  | @call front args after before name gap calls rest hopening hname hclosing _ ih =>
      have hnext : next? (front ++ ⟨'(', false⟩ :: (args ++ ⟨')', false⟩ :: after)) =
          some (before, ⟨name, gap, ofGlyphs args⟩, after) :=
        next?_eq_some_iff.2 ⟨front, args, rfl, hopening, hname, hclosing, rfl⟩
      rw [splitCalls_of_next? hnext, ih]

theorem decomposes_splitCalls (glyphs : List Glyph) :
    Decomposes glyphs (splitCalls glyphs).1 (splitCalls glyphs).2 := by
  -- What is left behind a call is no tail that the data names, only a shorter list.
  induction hlength : glyphs.length using Nat.strong_induction_on generalizing glyphs with
  | _ length ih =>
      subst hlength
      cases hnext : next? glyphs with
      | none =>
          rw [splitCalls_of_next?_eq_none hnext]
          exact .rest (next?_eq_none_iff.1 hnext)
      | some found =>
          obtain ⟨before, ⟨name, gap, text⟩, after⟩ := found
          have hafter := ih _ (length_of_next? hnext) after rfl
          rw [splitCalls_of_next? hnext]
          obtain ⟨front, args, rfl, hfront, hname, hargs, heq⟩ := next?_eq_some_iff.1 hnext
          simp only at hname heq
          subst heq
          exact .call hfront hname hargs hafter

end Call

namespace Expression

theorem compile_eq_render {expression : Text} (hpipe : ¬ HasPipe expression)
    {calls : List (Text × Call)} {rest : Text}
    (h : Call.Decomposes (marks (trim expression)) calls rest) :
    compile expression = Call.render calls rest := by
  have hsplit := h.splitCalls_eq
  have hpipes := splitPipes_eq_trim hpipe
  by_cases hcalls : (Call.splitCalls (marks (splitPipes expression).1)).1 = []
  · have hsource := Call.source_splitCalls (marks (trim expression))
    rw [compile_of_no_calls hcalls, hpipes]
    rw [hpipes, hsplit] at hcalls
    rw [hsplit, show calls = [] from hcalls, ofGlyphs_marks] at hsource
    rw [show calls = [] from hcalls]
    exact hsource.symm
  · rw [compile_of_calls hcalls, hpipes, hsplit]

/-- Without pipes, an expression compiles to its trimmed text with the code of the filter
in place of each call.  Its calls are those of the one way to decompose it. -/
theorem compile_of_decomposes (expression : Text) (hpipe : ¬ HasPipe expression) :
    (∃! parts : List (Text × Call) × Text,
      Call.Decomposes (marks (trim expression)) parts.1 parts.2) ∧
    ∀ calls rest, Call.Decomposes (marks (trim expression)) calls rest →
      trim expression = (calls.flatMap fun (before, call) => before ++ call.source) ++ rest ∧
      compile expression = (calls.flatMap fun (before, call) =>
        before ++ Filter.apply call.name (splitOutside ',' call.args).1
          (splitOutside ',' call.args).2) ++ rest ∧
      (calls = [] → compile expression = trim expression) := by
  constructor
  · refine ⟨Call.splitCalls (marks (trim expression)), Call.decomposes_splitCalls _, ?_⟩
    intro parts hparts
    exact hparts.splitCalls_eq.symm
  · intro calls rest hparts
    have hsplit := hparts.splitCalls_eq
    have hsource := Call.source_splitCalls (marks (trim expression))
    rw [hsplit, ofGlyphs_marks] at hsource
    have hcompile := compile_eq_render hpipe hparts
    refine ⟨hsource.symm, hcompile, ?_⟩
    rintro rfl
    rw [hcompile, ← hsource]
    rfl

/-- Parentheses stand in literals, in arguments and behind the last call. -/
theorem compile_of_quoted_parentheses :
    let expression := " 'a(' + count ( rows ) || strpos(t, ')') + f(y".toList
    let calls : List (Text × Call) :=
      [("'a(' + ".toList, ⟨"count".toList, " ".toList, " rows ".toList⟩),
        (" || ".toList, ⟨"strpos".toList, [], "t, ')'".toList⟩)]
    ¬ HasPipe expression ∧
      Call.Decomposes (marks (trim expression)) calls " + f(y".toList ∧
      compile expression = (calls.flatMap fun (before, call) =>
        before ++ Filter.apply call.name (splitOutside ',' call.args).1
          (splitOutside ',' call.args).2) ++ " + f(y".toList := by
  intro expression calls
  have hpipe : ¬ HasPipe expression := by decide +kernel
  have hparts : Call.Decomposes (marks (trim expression)) calls " + f(y".toList := by
    have hsplit : Call.splitCalls (marks (trim expression)) = (calls, " + f(y".toList) := by
      decide +kernel
    have hunique := Call.decomposes_splitCalls (marks (trim expression))
    rwa [hsplit] at hunique
  exact ⟨hpipe, hparts, ((compile_of_decomposes expression hpipe).2 _ _ hparts).2.1⟩

end Expression

end TagTemplate
