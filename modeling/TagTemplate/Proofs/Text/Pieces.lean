import TagTemplate.Proofs.Text.Closed

/-!
# Literals taken whole

`pieces` takes a literal whole where `marks` goes through it character by character, and both
find the same literals: the characters of a literal are covered (`marks_literal_append`), and
those of the run in front of it are bare (`marks_append_of_no_quote`).
-/

namespace TagTemplate.Text

/-! ## Marks of pieces -/

/-- The characters of a run outside literals. -/
def bareGlyphs (run : Text) : List Glyph :=
  run.map fun c => ⟨c, false⟩

theorem bareGlyphs_append (front back : Text) :
    bareGlyphs (front ++ back) = bareGlyphs front ++ bareGlyphs back :=
  List.map_append

/-- The characters of a literal, its quotes included. -/
def quotedGlyphs (body : Text) : List Glyph :=
  body.map fun c => ⟨c, true⟩

theorem marks_append_of_no_quote {run : Text} (h : ∀ c ∈ run, isQuote c = false) (back : Text) :
    marks (run ++ back) = bareGlyphs run ++ marks back := by
  rw [(closed_of_no_quote h).marks_append, marks_of_no_quote h]
  rfl

theorem ne_backslash_of_isQuote {quote : Char} (hquote : isQuote quote = true) :
    quote ≠ '\\' := by
  rintro rfl
  exact absurd hquote (by decide)

/-- A character that begins no escape is no backslash. -/
theorem ne_backslash {c : Char} {text : Text} (hlast : c = '\\' → text = [] → False)
    (hescape : ∀ d rest, c = '\\' → text = d :: rest → False) : c ≠ '\\' := by
  rintro rfl
  cases text with
  | nil => exact hlast rfl rfl
  | cons d rest => exact hescape d rest rfl rfl

/-- Only a literal that is closed can have text behind it. -/
theorem marksFrom_takeLiteral (quote : Char) (text : Text) {back : Text}
    (h : (takeLiteral quote text).2 = [] → back = []) :
    marksFrom (.inside quote) ((takeLiteral quote text).1 ++ back) =
      quotedGlyphs (takeLiteral quote text).1 ++ marks back := by
  fun_induction takeLiteral quote text with
  | case1 =>
      obtain rfl := h rfl
      rfl
  | case2 =>
      obtain rfl := h rfl
      rfl
  | case3 c text body rest hliteral ih =>
      rw [hliteral] at ih
      have hbody : marksFrom (.inside quote) (body ++ back) = quotedGlyphs body ++ marks back :=
        ih h
      simp [marksFrom, Mode.next, Mode.covers, quotedGlyphs, hbody]
  | case4 rest hnil hcons =>
      have hquote := ne_backslash hnil hcons
      simp [marksFrom, Mode.next, Mode.covers, quotedGlyphs, hquote, marks]
  | case5 c text hnil hcons hquote body rest hliteral ih =>
      have hc := ne_backslash hnil hcons
      rw [hliteral] at ih
      have hbody : marksFrom (.inside quote) (body ++ back) = quotedGlyphs body ++ marks back :=
        ih h
      simp [marksFrom, Mode.next, Mode.covers, quotedGlyphs, hbody, hc, hquote]

theorem marks_literal_append {quote : Char} (hquote : isQuote quote = true) (text : Text)
    {back : Text} (h : (takeLiteral quote text).2 = [] → back = []) :
    marks (quote :: (takeLiteral quote text).1 ++ back) =
      quotedGlyphs (quote :: (takeLiteral quote text).1) ++ marks back := by
  have hbody := marksFrom_takeLiteral quote text h
  simp only [marks, List.cons_append, marksFrom, Mode.covers, Mode.next, hquote, if_true] at hbody ⊢
  rw [hbody]
  rfl

theorem marks_cons_of_isQuote {quote : Char} (hquote : isQuote quote = true) (text : Text) :
    marks (quote :: text) = quotedGlyphs (quote :: (takeLiteral quote text).1) ++
      marks (takeLiteral quote text).2 := by
  have hliteral := marks_literal_append hquote text (fun hnil => hnil)
  rwa [List.cons_append, takeLiteral_append] at hliteral

/-! ## Rewriting outside literals -/

variable {rewrite : Text → Text}

theorem mapOutside_nil : mapOutside rewrite [] = [] := by
  rw [mapOutside, pieces]
  rfl

theorem mapOutside_of_isQuote {quote : Char} (hquote : isQuote quote = true) (text : Text) :
    mapOutside rewrite (quote :: text) =
      quote :: (takeLiteral quote text).1 ++ mapOutside rewrite (takeLiteral quote text).2 := by
  rw [mapOutside, pieces, if_pos hquote]
  rfl

theorem mapOutside_of_bare {c : Char} (hc : ¬ isQuote c = true) (text : Text) :
    mapOutside rewrite (c :: text) = rewrite (c :: text.takeWhile fun d => !isQuote d) ++
      mapOutside rewrite (text.dropWhile fun d => !isQuote d) := by
  rw [mapOutside, pieces, if_neg hc]
  rfl

theorem mapOutside_of_no_quote {text : Text} (hne : text ≠ [])
    (h : ∀ c ∈ text, isQuote c = false) : mapOutside rewrite text = rewrite text := by
  obtain ⟨c, rest, rfl⟩ := List.exists_cons_of_ne_nil hne
  rw [List.forall_mem_cons] at h
  have htake : (rest.takeWhile fun d => !isQuote d) = rest :=
    List.takeWhile_eq_self_iff.2 fun d hd => by simp [h.2 d hd]
  have hdrop : (rest.dropWhile fun d => !isQuote d) = [] :=
    List.dropWhile_eq_nil_iff.2 fun d hd => by simp [h.2 d hd]
  rw [mapOutside_of_bare (by simp [h.1]), htake, hdrop, mapOutside_nil, List.append_nil]

end TagTemplate.Text
