import TagTemplate.Proofs.Expression.Decomposition
import TagTemplate.Proofs.Expression.Operators
import TagTemplate.Tag.Fragment

/-!
# Operator words and their symbols

What the rewriting of operator words gives can be told from the marks of a text: a maximal
run of bare word characters becomes a symbol if it is one of the twelve words, and every other
character is copied as it is marked (`Operator.Symbolized`).  Literals are found again where
they were, no word comes about, and bars only come in pairs; so the rewriting can be done
twice, and no pipe is made by it (`Operator.rewrite_exact`).
-/

namespace TagTemplate

open Text

/-! ## Bars in pairs -/

namespace Text

/-- Every bar outside literals has another bar next to it. -/
def BarsPaired (glyphs : List Glyph) : Prop :=
  ∀ front back, glyphs = front ++ ⟨'|', false⟩ :: back →
    (∃ last ∈ front.getLast?, last.char = '|') ∨ ∃ first ∈ back.head?, first.char = '|'

theorem BarsPaired.not_hasPipe {text : Text} (h : BarsPaired (marks text)) : ¬ HasPipe text := by
  rintro ⟨front, back, heq, hlast, hhead⟩
  rcases h front back heq with ⟨last, hmem, hbar⟩ | ⟨first, hmem, hbar⟩
  · exact hlast last hmem hbar
  · exact hhead first hmem hbar

theorem barsPaired_of_not_mem {glyphs : List Glyph} (h : ⟨'|', false⟩ ∉ glyphs) :
    BarsPaired glyphs := by
  rintro front back rfl
  exact absurd (by simp) h

theorem BarsPaired.append {front back : List Glyph} (hfront : BarsPaired front)
    (hback : BarsPaired back) : BarsPaired (front ++ back) := by
  intro left right heq
  -- A bar at the seam keeps the neighbour that it had in its own part.
  rcases List.append_eq_append_iff.1 heq with ⟨between, rfl, hrest⟩ | ⟨between, rfl, hrest⟩
  · rcases hback between right hrest with ⟨last, hmem, hbar⟩ | hbar
    · refine Or.inl ⟨last, ?_, hbar⟩
      rw [List.getLast?_append, show between.getLast? = some last from hmem]
      rfl
    · exact Or.inr hbar
  · cases between with
    | nil =>
        rcases hback [] right hrest.symm with ⟨last, hmem, -⟩ | hbar
        · cases hmem
        · exact Or.inr hbar
    | cons glyph between =>
        rw [List.cons_append] at hrest
        obtain ⟨rfl, rfl⟩ := List.cons.inj hrest
        rcases hfront left between rfl with hbar | ⟨first, hmem, hbar⟩
        · exact Or.inl hbar
        · refine Or.inr ⟨first, ?_, hbar⟩
          rw [List.head?_append, show between.head? = some first from hmem]
          rfl

theorem not_hasPipe_of_not_mem {text : Text} (h : ⟨'|', false⟩ ∉ marks text) :
    ¬ HasPipe text :=
  (barsPaired_of_not_mem h).not_hasPipe

theorem mem_of_mem_marks {text : Text} {glyph : Glyph} (h : glyph ∈ marks text) :
    glyph.char ∈ text := by
  rw [← ofGlyphs_marks text]
  exact List.mem_map_of_mem h

theorem mem_marks_of_mem_marks_trim {text : Text} {glyph : Glyph}
    (h : glyph ∈ marks (trim text)) : glyph ∈ marks text := by
  obtain ⟨front, back, hfront, -, heq⟩ := exists_eq_append_trim text
  have hback : glyph ∈ marks (trim text ++ back) := by
    rw [marks, marksFrom_append]
    exact List.mem_append_left _ h
  rw [heq, List.append_assoc, hfront.closed.marks_append]
  exact List.mem_append_right _ hback

end Text

theorem Expression.compile_eq_trim {expression : Text} (hpipe : ¬ HasPipe expression)
    (hopen : ⟨'(', false⟩ ∉ marks expression) : compile expression = trim expression := by
  have hrest : Call.Decomposes (marks (trim expression)) []
      (ofGlyphs (marks (trim expression))) := by
    refine .rest fun front back heq => absurd (mem_marks_of_mem_marks_trim ?_) hopen
    rw [heq]
    simp
  rw [compile_eq_render hpipe hrest, ofGlyphs_marks]
  rfl

namespace Operator

/-! ## The words of a text -/

/-- No word goes on here. -/
def WordEnds (rest : List Glyph) : Prop :=
  ∀ glyph ∈ rest.head?, glyph.quoted = true ∨ isWord glyph.char = false

theorem wordEnds_dropWhile (text : Text) {rest : List Glyph} (hends : WordEnds rest) :
    WordEnds (bareGlyphs (text.dropWhile isWord) ++ rest) := by
  cases hdrop : text.dropWhile isWord with
  | nil => exact hends
  | cons c others =>
      intro glyph hglyph
      obtain rfl := Option.some.inj hglyph
      exact Or.inr (not_of_mem_head?_dropWhile isWord text (by rw [hdrop]; rfl))

/-- A run between literals ends with the text or at the quote of a literal. -/
theorem wordEnds_marks_dropWhile (text : Text) :
    WordEnds (marks (text.dropWhile fun d => !isQuote d)) := by
  cases hdrop : text.dropWhile fun d => !isQuote d with
  | nil => exact fun glyph hglyph => absurd hglyph (by simp [marks, marksFrom])
  | cons c rest =>
      intro glyph hglyph
      obtain rfl := Option.some.inj hglyph
      have hstop := not_of_mem_head?_dropWhile (fun d => !isQuote d) text
        (show c ∈ _ by rw [hdrop]; rfl)
      rw [Bool.not_eq_false'] at hstop
      exact Or.inl hstop

/-- What stands for a word: the symbol of its operator if it is one of the twelve words, else
the word itself. -/
def StandsFor (text word : Text) : Prop :=
  (∃ operator, (word, operator) ∈ wordTable ∧ text = operator.symbol) ∨
    (∀ operator, (word, operator) ∉ wordTable) ∧ text = word

/-- Marked text, and the same with the symbols of its operator words. -/
inductive Symbolized : List Glyph → List Glyph → Prop
  | nil : Symbolized [] []
  | copied {glyph : Glyph} {rest result : List Glyph}
      (noWord : glyph.quoted = true ∨ isWord glyph.char = false)
      (more : Symbolized rest result) : Symbolized (glyph :: rest) (glyph :: result)
  | word {word text : Text} {rest result : List Glyph} (ne_nil : word ≠ [])
      (chars : ∀ c ∈ word, isWord c = true) (stands : StandsFor text word)
      (ends : WordEnds rest) (more : Symbolized rest result) :
      Symbolized (bareGlyphs word ++ rest) (bareGlyphs text ++ result)

theorem standsFor_iff {text word : Text} : StandsFor text word ↔ text = symbolize word := by
  have htable : ∀ entry ∈ wordTable, ofWord? entry.1 = some entry.2 := by decide
  rw [symbolize]
  constructor
  · rintro (⟨operator, hentry, rfl⟩ | ⟨hnone, rfl⟩)
    · rw [htable _ hentry]
      rfl
    · have hword : ofWord? text = none :=
        Option.eq_none_iff_forall_ne_some.2 fun operator h => hnone operator (mem_wordTable h)
      rw [hword]
      rfl
  · rintro rfl
    cases hword : ofWord? word with
    | none =>
        refine Or.inr ⟨fun operator hentry => ?_, rfl⟩
        rw [htable _ hentry] at hword
        cases hword
    | some operator => exact Or.inl ⟨operator, mem_wordTable hword, rfl⟩

theorem isWord_symbol {operator : Operator} : ∀ c ∈ operator.symbol, isWord c = false := by
  intro c hc
  simpa using all_symbol (fun c => !isWord c) (by decide) hc

namespace Symbolized

variable {glyphs rest result : List Glyph}

theorem quoted_append (body : Text) (h : Symbolized rest result) :
    Symbolized (quotedGlyphs body ++ rest) (quotedGlyphs body ++ result) := by
  induction body with
  | nil => exact h
  | cons c body ih => exact .copied (Or.inl rfl) ih

theorem bare_append {run : Text} (hrun : ∀ c ∈ run, isWord c = false)
    (h : Symbolized rest result) :
    Symbolized (bareGlyphs run ++ rest) (bareGlyphs run ++ result) := by
  induction run with
  | nil => exact h
  | cons c run ih =>
      rw [List.forall_mem_cons] at hrun
      exact .copied (Or.inr hrun.1) (ih hrun.2)

/-- A run between literals. -/
theorem run_append (run : Text) (hends : WordEnds rest) (h : Symbolized rest result) :
    Symbolized (bareGlyphs run ++ rest) (bareGlyphs (symbolizeRun run) ++ result) := by
  fun_induction symbolizeRun run with
  | case1 => exact h
  | case2 c text hword ih =>
      have hchars : ∀ d ∈ c :: text.takeWhile isWord, isWord d = true := by
        rw [List.forall_mem_cons]
        exact ⟨hword, fun d hd => List.mem_takeWhile_imp hd⟩
      have hnext := wordEnds_dropWhile text hends
      have hstep := Symbolized.word (List.cons_ne_nil c _) hchars (standsFor_iff.2 rfl) hnext ih
      rwa [← List.append_assoc, ← bareGlyphs_append, List.cons_append,
        List.takeWhile_append_dropWhile, ← List.append_assoc, ← bareGlyphs_append] at hstep
  | case3 c text hword ih => exact .copied (Or.inr (by simpa using hword)) ih

/-! ## The one result -/

theorem first (h : Symbolized glyphs result) :
    (glyphs = [] ∧ result = []) ∨
    (∃ glyph rest more, glyphs = glyph :: rest ∧ result = glyph :: more ∧
      (glyph.quoted = true ∨ isWord glyph.char = false) ∧ Symbolized rest more) ∨
    ∃ word rest more, glyphs = bareGlyphs word ++ rest ∧
      result = bareGlyphs (symbolize word) ++ more ∧ word ≠ [] ∧
      (∀ c ∈ word, isWord c = true) ∧ WordEnds rest ∧ Symbolized rest more := by
  cases h with
  | nil => exact Or.inl ⟨rfl, rfl⟩
  | copied hnoWord hmore => exact Or.inr (Or.inl ⟨_, _, _, rfl, rfl, hnoWord, hmore⟩)
  | @word word text rest result hne hchars hstands hends hmore =>
      rw [standsFor_iff.1 hstands]
      exact Or.inr (Or.inr ⟨word, rest, result, rfl, rfl, hne, hchars, hends, hmore⟩)

end Symbolized

/-- A word begins with a word character and is no copied character. -/
theorem not_noWord_of_bareGlyphs {word : Text} {rest others : List Glyph} {glyph : Glyph}
    (hne : word ≠ []) (hchars : ∀ c ∈ word, isWord c = true)
    (heq : glyph :: others = bareGlyphs word ++ rest) :
    ¬ (glyph.quoted = true ∨ isWord glyph.char = false) := by
  obtain ⟨c, word, rfl⟩ := List.exists_cons_of_ne_nil hne
  obtain ⟨rfl, -⟩ := List.cons.inj heq
  simp [hchars c List.mem_cons_self]

/-- Where a word ends is told by what it is a part of. -/
theorem bareGlyphs_append_inj {word word' : Text} {rest rest' : List Glyph}
    (hchars : ∀ c ∈ word, isWord c = true) (hends : WordEnds rest)
    (hchars' : ∀ c ∈ word', isWord c = true) (hends' : WordEnds rest')
    (heq : bareGlyphs word ++ rest = bareGlyphs word' ++ rest') : word = word' ∧ rest = rest' := by
  induction word generalizing word' with
  | nil =>
      cases word' with
      | nil => exact ⟨rfl, heq⟩
      | cons c word' =>
          have hstart := hends ⟨c, false⟩ (by rw [show rest = _ from heq]; rfl)
          simp [hchars' c List.mem_cons_self] at hstart
  | cons c word ih =>
      rw [List.forall_mem_cons] at hchars
      cases word' with
      | nil =>
          have hstart := hends' ⟨c, false⟩ (by rw [show rest' = _ from heq.symm]; rfl)
          simp [hchars.1] at hstart
      | cons d word' =>
          rw [List.forall_mem_cons] at hchars'
          obtain ⟨hhead, htail⟩ := List.cons.inj heq
          obtain rfl : c = d := congrArg Glyph.char hhead
          obtain ⟨rfl, rfl⟩ := ih hchars.2 hchars'.2 htail
          exact ⟨rfl, rfl⟩

namespace Symbolized

variable {glyphs rest result result' : List Glyph}

theorem unique (h : Symbolized glyphs result) (h' : Symbolized glyphs result') :
    result = result' := by
  induction h generalizing result' with
  | nil =>
      rcases h'.first with ⟨-, rfl⟩ | ⟨_, _, _, heq, -⟩ | ⟨word, rest, _, heq, -, hne, -⟩
      · rfl
      · cases heq
      · have hnil := (List.append_eq_nil_iff.1 heq.symm).1
        exact absurd (List.map_eq_nil_iff.1 hnil) hne
  | @copied glyph rest result hnoWord hmore ih =>
      rcases h'.first with ⟨heq, -⟩ | ⟨_, _, _, heq, rfl, -, hmore'⟩ |
        ⟨word, _, _, heq, -, hne, hchars, -⟩
      · cases heq
      · obtain ⟨rfl, rfl⟩ := List.cons.inj heq
        rw [ih hmore']
      · exact absurd hnoWord (not_noWord_of_bareGlyphs hne hchars heq)
  | @word word text rest result hne hchars hstands hends hmore ih =>
      rcases h'.first with ⟨heq, -⟩ | ⟨_, _, _, heq, -, hnoWord, -⟩ |
        ⟨word', rest', _, heq, rfl, -, hchars', hends', hmore'⟩
      · exact absurd (List.map_eq_nil_iff.1 (List.append_eq_nil_iff.1 heq).1) hne
      · exact absurd hnoWord (not_noWord_of_bareGlyphs hne hchars heq.symm)
      · obtain ⟨rfl, rfl⟩ := bareGlyphs_append_inj hchars hends hchars' hends' heq
        rw [standsFor_iff.1 hstands, ih hmore']

/-- No word begins in the result where none begins in the text. -/
theorem wordEnds (h : Symbolized rest result) (hends : WordEnds rest) : WordEnds result := by
  rcases h.first with ⟨-, rfl⟩ | ⟨glyph, _, _, rfl, rfl, -, -⟩ |
    ⟨word, _, _, rfl, -, hne, hchars, -⟩
  · exact fun glyph hglyph => absurd hglyph (by simp)
  · exact hends
  · obtain ⟨c, word, rfl⟩ := List.exists_cons_of_ne_nil hne
    have hstart := hends ⟨c, false⟩ rfl
    simp [hchars c List.mem_cons_self] at hstart

/-- The result has no operator words any more. -/
theorem self (h : Symbolized glyphs result) : Symbolized result result := by
  induction h with
  | nil => exact .nil
  | copied hnoWord _ ih => exact .copied hnoWord ih
  | word hne hchars hstands hends hmore ih =>
      rcases hstands with ⟨operator, -, rfl⟩ | ⟨hnone, rfl⟩
      · exact ih.bare_append isWord_symbol
      · exact .word hne hchars (Or.inr ⟨hnone, rfl⟩) (hmore.wordEnds hends) ih

theorem forall_mem {p : Glyph → Prop} (h : Symbolized glyphs result)
    (hglyphs : ∀ glyph ∈ glyphs, p glyph)
    (hsymbol : ∀ operator : Operator, ∀ c ∈ operator.symbol, p ⟨c, false⟩) :
    ∀ glyph ∈ result, p glyph := by
  induction h with
  | nil => exact hglyphs
  | copied hnoWord _ ih =>
      rw [List.forall_mem_cons] at hglyphs ⊢
      exact ⟨hglyphs.1, ih hglyphs.2⟩
  | word hne hchars hstands hends hmore ih =>
      rw [List.forall_mem_append] at hglyphs ⊢
      refine ⟨?_, ih hglyphs.2⟩
      rcases hstands with ⟨operator, -, rfl⟩ | ⟨-, rfl⟩
      · intro glyph hglyph
        obtain ⟨c, hc, rfl⟩ := List.mem_map.1 hglyph
        exact hsymbol operator c hc
      · exact hglyphs.1

end Symbolized

theorem barsPaired_symbol (operator : Operator) : BarsPaired (bareGlyphs operator.symbol) := by
  cases operator with
  | either =>
      intro front back heq
      change [(⟨'|', false⟩ : Glyph), ⟨'|', false⟩] = front ++ ⟨'|', false⟩ :: back at heq
      cases front with
      | nil =>
          obtain ⟨-, rfl⟩ := List.cons.inj heq
          exact Or.inr ⟨_, rfl, rfl⟩
      | cons glyph front =>
          obtain ⟨rfl, hrest⟩ := List.cons.inj heq
          cases front with
          | nil => exact Or.inl ⟨_, rfl, rfl⟩
          | cons other front =>
              have hlength := congrArg List.length hrest
              simp at hlength
  | equal | unequal | atLeast | atMost | above | below | both | negation =>
      exact barsPaired_of_not_mem (by decide)

theorem Symbolized.barsPaired {glyphs result : List Glyph} (h : Symbolized glyphs result)
    (hbar : ⟨'|', false⟩ ∉ glyphs) : BarsPaired result := by
  induction h with
  | nil => exact barsPaired_of_not_mem List.not_mem_nil
  | @copied glyph rest result hnoWord _ ih =>
      rw [List.mem_cons, not_or] at hbar
      have hglyph : BarsPaired [glyph] := barsPaired_of_not_mem (by simpa using hbar.1)
      exact hglyph.append (ih hbar.2)
  | word hne hchars hstands hends hmore ih =>
      rw [List.mem_append, not_or] at hbar
      refine BarsPaired.append ?_ (ih hbar.2)
      rcases hstands with ⟨operator, -, rfl⟩ | ⟨-, rfl⟩
      · exact barsPaired_symbol operator
      · exact barsPaired_of_not_mem hbar.1

/-! ## The rewriting -/

theorem isQuote_symbolizeRun {run : Text} (h : ∀ c ∈ run, isQuote c = false) :
    ∀ c ∈ symbolizeRun run, isQuote c = false := by
  have hsymbol : ∀ entry ∈ wordTable, ∀ c ∈ entry.2.symbol, isQuote c = false := by
    intro entry _ c hc
    simpa using all_symbol (fun c => !isQuote c) (by decide) hc
  refine symbolizeRun_rel (r := fun before after =>
    (∀ c ∈ before, isQuote c = false) → ∀ c ∈ after, isQuote c = false)
    (fun _ h => h) ?_ (fun entry hentry _ => hsymbol entry hentry) run h
  intro front front' back back' hfront hback h
  rw [List.forall_mem_append] at h ⊢
  exact ⟨hfront h.1, hback h.2⟩

theorem symbolized_marks (text : Text) : Symbolized (marks text) (marks (rewrite text)) := by
  induction text using pieces.induct with
  | case1 =>
      rw [rewrite, mapOutside_nil]
      exact .nil
  | case2 c text hquote ih =>
      have hback : (takeLiteral c text).2 = [] → rewrite (takeLiteral c text).2 = [] := by
        intro hnil
        rw [hnil, rewrite, mapOutside_nil]
      have hrewrite : rewrite (c :: text) =
          c :: (takeLiteral c text).1 ++ rewrite (takeLiteral c text).2 :=
        mapOutside_of_isQuote hquote text
      rw [hrewrite, marks_cons_of_isQuote hquote, marks_literal_append hquote text hback]
      exact ih.quoted_append _
  | case3 c text hquote ih =>
      have hrun : ∀ d ∈ c :: text.takeWhile fun d => !isQuote d, isQuote d = false := by
        rw [List.forall_mem_cons]
        exact ⟨by simpa using hquote, fun d hd => by simpa using List.mem_takeWhile_imp hd⟩
      have htext : c :: text = (c :: text.takeWhile fun d => !isQuote d) ++
          text.dropWhile fun d => !isQuote d := by
        rw [List.cons_append, List.takeWhile_append_dropWhile]
      rw [rewrite, mapOutside_of_bare hquote, marks_append_of_no_quote (isQuote_symbolizeRun hrun)]
      conv_lhs => rw [htext]
      rw [marks_append_of_no_quote hrun]
      exact ih.run_append _ (wordEnds_marks_dropWhile text)

theorem not_hasPipe_rewrite {text : Text} (h : ⟨'|', false⟩ ∉ marks text) :
    ¬ HasPipe (rewrite text) :=
  ((symbolized_marks text).barsPaired h).not_hasPipe

theorem compile_rewrite_eq_trim {text : Text} (hbar : ⟨'|', false⟩ ∉ marks text)
    (hopen : ⟨'(', false⟩ ∉ marks text) :
    Expression.compile (rewrite text) = trim (rewrite text) := by
  apply Expression.compile_eq_trim (not_hasPipe_rewrite hbar)
  intro hmem
  have hsymbol : ∀ operator : Operator, ∀ c ∈ operator.symbol,
      (⟨c, false⟩ : Glyph) ≠ ⟨'(', false⟩ := by
    intro operator c hc
    have hnot := all_symbol (fun c => c != '(') (by decide) hc
    simpa using hnot
  have hglyphs : ∀ glyph ∈ marks text, glyph ≠ ⟨'(', false⟩ := by
    rintro glyph hglyph rfl
    exact hopen hglyph
  exact (symbolized_marks text).forall_mem hglyphs hsymbol _ hmem rfl

/-- Outside literals each maximal run of word characters that is an operator word becomes its
symbol, and all else is copied; a second rewriting changes nothing.  Text without bare bars
gets no pipe by it, so if nothing in it calls, it is the condition of an `if`. -/
theorem rewrite_exact (text : Text) :
    (∀ result, Symbolized (marks text) result ↔ result = marks (rewrite text)) ∧
    rewrite (rewrite text) = rewrite text ∧
    (⟨'|', false⟩ ∉ marks text → ¬ HasPipe (rewrite text) ∧
      (⟨'(', false⟩ ∉ marks text → ∀ metaMark, Kind.ifTag.fragment metaMark text =
        "if (".toList ++ trim (rewrite text) ++ ") \x7b".toList)) := by
  refine ⟨fun result => ⟨fun h => ?_, ?_⟩, ?_, fun hbar => ⟨?_, fun hopen metaMark => ?_⟩⟩
  · exact h.unique (symbolized_marks text)
  · rintro rfl
    exact symbolized_marks text
  · have hmarks := (symbolized_marks (rewrite text)).unique (symbolized_marks text).self
    rw [← ofGlyphs_marks (rewrite (rewrite text)), hmarks, ofGlyphs_marks]
  · exact not_hasPipe_rewrite hbar
  · have hfragment : Kind.ifTag.fragment metaMark text =
        "if (".toList ++ Expression.compile (rewrite text) ++ ") \x7b".toList := rfl
    rw [hfragment, compile_rewrite_eq_trim hbar hopen]

/-- The first `or` stands at a literal, the second one is quoted, the third one is a part of a
word, and the last literal is never closed. -/
theorem rewrite_exact_of_quoted_words :
    let text := " 'a|('or \"x or y\" eq nor_ not z neq 'and ".toList
    ⟨'|', false⟩ ∉ marks text ∧ ⟨'(', false⟩ ∉ marks text ∧
      rewrite text = " 'a|('|| \"x or y\" == nor_ ! z != 'and ".toList ∧
      Kind.ifTag.fragment [] text =
        "if (".toList ++ trim (rewrite text) ++ ") \x7b".toList := by
  intro text
  have hbar : ⟨'|', false⟩ ∉ marks text := by decide +kernel
  have hopen : ⟨'(', false⟩ ∉ marks text := by decide +kernel
  have hsymbols : rewrite text = " 'a|('|| \"x or y\" == nor_ ! z != 'and ".toList := by
    decide +kernel
  exact ⟨hbar, hopen, hsymbols, ((rewrite_exact text).2.2 hbar).2 hopen []⟩

end Operator

end TagTemplate
