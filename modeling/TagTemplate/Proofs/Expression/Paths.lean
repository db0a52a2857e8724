import TagTemplate.Proofs.Expression.Symbols

/-!
# Paths

A text without calls, pipes and blanks compiles to itself (`Expression.compile_path`).  In
a condition its operator words are replaced first.  Dots and dollar signs bound words, so of
a path `root.segment` these are the root and the parts of the segment between dollar
signs (`Operator.rewrite_path`).
-/

namespace TagTemplate

open Text

namespace Text

/-- Names put together with dots and dollar signs. -/
structure IsPath (text : Text) : Prop where
  ne_nil : text ≠ []
  chars : ∀ c ∈ text, isAsciiWord c = true ∨ c = '.' ∨ c = '$'

theorem isPath_append {root segment : Text} (hroot : ∀ c ∈ root, isAsciiWord c = true)
    (hsegment : ∀ c ∈ segment, isAsciiWord c = true ∨ c = '$') :
    IsPath (root ++ '.' :: segment) := by
  refine ⟨by simp, fun c hc => ?_⟩
  rcases List.mem_append.1 hc with hc | hc
  · exact Or.inl (hroot c hc)
  · rcases List.mem_cons.1 hc with rfl | hc
    · exact Or.inr (Or.inl rfl)
    · exact (hsegment c hc).imp_right Or.inr

namespace IsPath

variable {text : Text}

theorem noBlank (h : IsPath text) : ∀ c ∈ text, isBlank c = false := by
  intro c hc
  rcases h.chars c hc with hword | rfl | rfl
  · exact isBlank_of_isAsciiWord hword
  · decide
  · decide

theorem noQuote (h : IsPath text) : ∀ c ∈ text, isQuote c = false := by
  intro c hc
  rcases h.chars c hc with hword | rfl | rfl
  · exact isQuote_of_isAsciiWord hword
  · decide
  · decide

theorem not_mem (h : IsPath text) {c : Char} (hc : isAsciiWord c = false ∧ c ≠ '.' ∧ c ≠ '$') :
    c ∉ text := by
  intro hmem
  rcases h.chars c hmem with hword | hdot | hdollar
  · rw [hc.1] at hword
    cases hword
  · exact hc.2.1 hdot
  · exact hc.2.2 hdollar

theorem not_mem_marks (h : IsPath text) {c : Char}
    (hc : isAsciiWord c = false ∧ c ≠ '.' ∧ c ≠ '$') : ⟨c, false⟩ ∉ marks text :=
  fun hmem => h.not_mem hc (mem_of_mem_marks hmem)

end IsPath

end Text

namespace Expression

theorem compile_path {path : Text} (h : IsPath path) : compile path = path := by
  rw [compile_eq_trim (not_hasPipe_of_not_mem (h.not_mem_marks (by decide)))
    (h.not_mem_marks (by decide)), trim_of_no_blank h.noBlank]

end Expression

/-! ## Operator words in paths -/

namespace Operator

theorem symbolizeRun_append {word : Text} (hword : ∀ c ∈ word, isWord c = true) (back : Text)
    (hback : ∀ c ∈ back.head?, isWord c = false) :
    symbolizeRun (word ++ back) = symbolize word ++ symbolizeRun back := by
  cases word with
  | nil => rfl
  | cons c word =>
      rw [List.forall_mem_cons] at hword
      have hstop : back.takeWhile isWord = [] ∧ back.dropWhile isWord = back := by
        cases back with
        | nil => exact ⟨rfl, rfl⟩
        | cons d back =>
            have hd : isWord d = false := hback d rfl
            simp [hd]
      rw [List.cons_append, symbolizeRun, if_pos hword.1, List.takeWhile_append_of_pos hword.2,
        List.dropWhile_append_of_pos hword.2, hstop.1, hstop.2, List.append_nil]

theorem symbolizeRun_cons {c : Char} (hc : isWord c = false) (text : Text) :
    symbolizeRun (c :: text) = c :: symbolizeRun text := by
  rw [symbolizeRun, if_neg (by simp [hc])]

theorem symbolizeRun_intercalate (separator : Char) (hseparator : isWord separator = false)
    {list : List Text} (h : ∀ word ∈ list, ∀ c ∈ word, isWord c = true) :
    symbolizeRun (List.intercalate [separator] list) =
      List.intercalate [separator] (list.map symbolize) := by
  induction list with
  | nil => simp [symbolizeRun]
  | cons word list ih =>
      rw [List.forall_mem_cons] at h
      cases list with
      | nil =>
          have hword := symbolizeRun_append h.1 [] (by simp)
          simpa [symbolizeRun] using hword
      | cons next others =>
          have hback : ∀ c ∈ ([separator] ++ List.intercalate [separator] (next :: others)).head?,
              isWord c = false := by
            simpa using hseparator
          rw [List.map_cons, List.map_cons, List.intercalate_cons_cons, List.intercalate_cons_cons,
            List.append_assoc, symbolizeRun_append h.1 _ hback, List.singleton_append,
            symbolizeRun_cons hseparator, ih h.2, List.map_cons]
          simp

/-- A segment of a path with the symbols of the operator words between its dollar signs. -/
def symbolizeFields (segment : Text) : Text :=
  List.intercalate ['$'] (((fields '$' segment).1 :: (fields '$' segment).2).map symbolize)

/-- An operator word becomes characters that are in no path. -/
theorem exists_mem_symbolize {word : Text} (h : ofWord? word ≠ none) :
    ∃ c ∈ symbolize word, isWord c = false ∧ c ≠ '$' := by
  obtain ⟨operator, hoperator⟩ := Option.ne_none_iff_exists'.1 h
  rw [symbolize, hoperator]
  change ∃ c ∈ operator.symbol, isWord c = false ∧ c ≠ '$'
  have hne : operator.symbol ≠ [] := by cases operator <;> decide
  obtain ⟨c, hc⟩ := List.exists_mem_of_ne_nil _ hne
  have hnot := all_symbol (fun c => !isWord c && c != '$') (by decide) hc
  exact ⟨c, hc, by simpa using hnot⟩

theorem symbolizeFields_eq_self_iff {segment : Text}
    (h : ∀ c ∈ segment, isWord c = true ∨ c = '$') :
    symbolizeFields segment = segment ↔
      ∀ field ∈ (fields '$' segment).1 :: (fields '$' segment).2, ofWord? field = none := by
  constructor
  · intro heq field hfield
    by_contra hoperator
    obtain ⟨c, hc, hnot⟩ := exists_mem_symbolize hoperator
    have hinside : symbolize field <:+: symbolizeFields segment :=
      isInfix_intercalate ['$'] (List.mem_map_of_mem hfield)
    rw [heq] at hinside
    rcases h c (hinside.subset hc) with hword | hdollar
    · rw [hnot.1] at hword
      cases hword
    · exact hnot.2 hdollar
  · intro hnone
    have hself : ∀ field ∈ (fields '$' segment).1 :: (fields '$' segment).2,
        symbolize field = id field := by
      intro field hfield
      rw [symbolize, hnone field hfield]
      rfl
    rw [symbolizeFields, List.map_congr_left hself, List.map_id, fields_intercalate]

theorem rewrite_path {root segment : Text} (hroot : ∀ c ∈ root, isAsciiWord c = true)
    (hsegment : ∀ c ∈ segment, isAsciiWord c = true ∨ c = '$') :
    rewrite (root ++ '.' :: segment) = symbolize root ++ '.' :: symbolizeFields segment := by
  have hpath := isPath_append hroot hsegment
  have hfields : ∀ field ∈ (fields '$' segment).1 :: (fields '$' segment).2,
      ∀ c ∈ field, isWord c = true := by
    intro field hfield c hc
    rcases hsegment c (mem_of_mem_fields hfield hc) with hword | rfl
    · exact isWord_of_isAsciiWord hword
    · exact absurd hc (not_mem_of_mem_fields hfield)
  have hsegments := symbolizeRun_intercalate '$' (by decide) hfields
  rw [fields_intercalate] at hsegments
  rw [rewrite, mapOutside_of_no_quote hpath.ne_nil hpath.noQuote,
    symbolizeRun_append (fun c hc => isWord_of_isAsciiWord (hroot c hc)) _ (by simp; decide),
    symbolizeRun_cons (by decide), hsegments]
  rfl

/-- Operator words leave nothing behind that has to be compiled. -/
theorem compile_rewrite {expression : Text} (h : IsPath expression) :
    Expression.compile (rewrite expression) = rewrite expression := by
  have hsymbols : ∀ entry ∈ wordTable, ∀ c ∈ entry.2.symbol, isBlank c = false := by
    intro entry _ c hc
    simpa using all_symbol (fun c => !isBlank c) (by decide) hc
  rw [compile_rewrite_eq_trim (h.not_mem_marks (by decide)) (h.not_mem_marks (by decide)),
    trim_of_no_blank (mem_rewrite h.noBlank hsymbols)]

end Operator

end TagTemplate
