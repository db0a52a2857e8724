import TagTemplate.Proofs.Text.Marks

/-!
# Texts that close their literals

A text whose literals are all closed in it can be put in front of any text: the marks of
the whole are then the marks of its two parts (`Closed.marks_append`).  So can be taken
apart what is done on the marks, such as leaving out the blanks outside literals
(`Closed.squeeze_append`).
-/

namespace TagTemplate.Text

namespace Mode

theorem after_append (mode : Mode) (front back : Text) :
    mode.after (front ++ back) = (mode.after front).after back :=
  List.foldl_append

/-- A literal was opened by a quote. -/
def Opened : Mode → Prop
  | outside => True
  | inside quote | escaped quote => isQuote quote = true

theorem Opened.next {mode : Mode} (h : mode.Opened) (c : Char) : (mode.next c).Opened := by
  cases mode with
  | outside =>
      rw [Mode.next]
      split
      · assumption
      · trivial
  | inside quote =>
      rw [Mode.next]
      split
      · exact h
      · split
        · trivial
        · exact h
  | escaped quote => exact h

theorem Opened.after {mode : Mode} (h : mode.Opened) (text : Text) : (mode.after text).Opened := by
  induction text generalizing mode with
  | nil => exact h
  | cons c text ih => exact ih (h.next c)

/-- Nothing but a quote ends a literal. -/
theorem Opened.eq_outside_of_next {mode : Mode} {c : Char} (h : mode.Opened)
    (hquote : isQuote c = false) (hnext : mode.next c = outside) : mode = outside := by
  cases mode with
  | outside => rfl
  | inside quote =>
      rw [Mode.next] at hnext
      split at hnext
      · cases hnext
      · split at hnext
        · rename_i hc
          rw [hc, show isQuote quote = true from h] at hquote
          cases hquote
        · cases hnext
  | escaped quote => cases hnext

theorem Opened.eq_outside_of_after {mode : Mode} {text : Text} (h : mode.Opened)
    (hquote : ∀ c ∈ text, isQuote c = false) (hafter : mode.after text = outside) :
    mode = outside := by
  induction text generalizing mode with
  | nil => exact hafter
  | cons c text ih =>
      rw [List.forall_mem_cons] at hquote
      exact h.eq_outside_of_next hquote.1 (ih (h.next c) hquote.2 hafter)

theorem covers_eq_false_iff {mode : Mode} {c : Char} :
    mode.covers c = false ↔ mode = outside ∧ isQuote c = false := by
  cases mode <;> simp [covers]

theorem after_outside_of_no_quote {text : Text} (h : ∀ c ∈ text, isQuote c = false) :
    outside.after text = outside := by
  induction text with
  | nil => rfl
  | cons c text ih =>
      rw [List.forall_mem_cons] at h
      have hnext : outside.next c = outside := by simp [Mode.next, h.1]
      rw [after, List.foldl_cons, hnext]
      exact ih h.2

end Mode

/-! ## Closed texts -/

/-- Each literal of the text ends in it. -/
def Closed (text : Text) : Prop :=
  Mode.outside.after text = .outside

instance (text : Text) : Decidable (Closed text) :=
  inferInstanceAs (Decidable (_ = _))

theorem closed_of_no_quote {text : Text} (h : ∀ c ∈ text, isQuote c = false) : Closed text :=
  Mode.after_outside_of_no_quote h

theorem isQuote_of_isBlank {c : Char} (h : isBlank c = true) : isQuote c = false := by
  by_contra hquote
  rw [Bool.not_eq_false, isQuote, Bool.or_eq_true, beq_iff_eq, beq_iff_eq] at hquote
  rcases hquote with rfl | rfl
  · exact absurd h (by decide)
  · exact absurd h (by decide)

theorem AllBlank.closed {text : Text} (h : AllBlank text) : Closed text :=
  closed_of_no_quote fun c hc => isQuote_of_isBlank (h c hc)

namespace Closed

variable {front back : Text}

theorem after_append (h : Closed front) (back : Text) :
    Mode.outside.after (front ++ back) = Mode.outside.after back := by
  rw [Mode.after_append, show Mode.outside.after front = .outside from h]

theorem append (hfront : Closed front) (hback : Closed back) : Closed (front ++ back) :=
  (hfront.after_append back).trans hback

theorem of_append_left (h : Closed (front ++ back)) (hfront : Closed front) : Closed back :=
  (hfront.after_append back).symm.trans h

theorem of_append_right (h : Closed (front ++ back)) (hquote : ∀ c ∈ back, isQuote c = false) :
    Closed front := by
  -- Without a quote `back` leaves a literal open that `front` has opened.
  have hopened := Mode.Opened.after (show Mode.outside.Opened from trivial) front
  rw [Closed, Mode.after_append] at h
  exact hopened.eq_outside_of_after hquote h

theorem trim {text : Text} (h : Closed text) : Closed (trim text) := by
  obtain ⟨front, back, hfront, hback, heq⟩ := exists_eq_append_trim text
  rw [heq] at h
  exact (h.of_append_right fun c hc => isQuote_of_isBlank (hback c hc)).of_append_left hfront.closed

theorem marks_append (h : Closed front) (back : Text) :
    marks (front ++ back) = marks front ++ marks back := by
  rw [marks, marksFrom_append, show Mode.outside.after front = .outside from h]
  rfl

end Closed

/-- A bare character parts a text into two that are marked by themselves. -/
theorem closed_of_marks_eq {text : Text} {c : Char} {front back : List Glyph}
    (h : marks text = front ++ ⟨c, false⟩ :: back) :
    Closed (ofGlyphs front) ∧ isQuote c = false ∧
      front = marks (ofGlyphs front) ∧ back = marks (ofGlyphs back) := by
  have htext : text = ofGlyphs front ++ c :: ofGlyphs back := by
    rw [← ofGlyphs_marks text, h, ofGlyphs_append, ofGlyphs_cons]
  rw [htext, marks, marksFrom_append, marksFrom] at h
  have hlength : (marksFrom .outside (ofGlyphs front)).length = front.length := by
    rw [← List.length_map Glyph.char]
    exact congrArg List.length (ofGlyphs_marksFrom _ _) |>.trans (List.length_map _)
  obtain ⟨hfront, hback⟩ := List.append_inj h hlength
  obtain ⟨hglyph, hrest⟩ := List.cons.inj hback
  obtain ⟨hmode, hquote⟩ := Mode.covers_eq_false_iff.1 (congrArg Glyph.quoted hglyph)
  have hnext : Mode.outside.next c = .outside := by simp [Mode.next, hquote]
  rw [hmode, hnext] at hrest
  exact ⟨hmode, hquote, hfront.symm, hrest.symm⟩

/-! ## Blanks outside literals -/

/-- The text without the blanks outside its literals. -/
def squeeze (text : Text) : Text :=
  ofGlyphs ((marks text).filter fun glyph => glyph.quoted || !isBlank glyph.char)

theorem Closed.squeeze_append {front : Text} (h : Closed front) (back : Text) :
    squeeze (front ++ back) = squeeze front ++ squeeze back := by
  rw [squeeze, h.marks_append, List.filter_append, ofGlyphs_append]
  rfl

theorem marks_of_no_quote {text : Text} (h : ∀ c ∈ text, isQuote c = false) :
    marks text = text.map fun c => ⟨c, false⟩ := by
  induction text with
  | nil => rfl
  | cons c text ih =>
      rw [List.forall_mem_cons] at h
      have hc : Closed [c] := closed_of_no_quote (by simpa using h.1)
      have hmark : marks [c] = [⟨c, false⟩] := by simp [marks, marksFrom, Mode.covers, h.1]
      rw [← List.singleton_append, hc.marks_append, ih h.2, hmark]
      rfl

theorem squeeze_of_no_quote {text : Text} (h : ∀ c ∈ text, isQuote c = false) :
    squeeze text = text.filter fun c => !isBlank c := by
  rw [squeeze, marks_of_no_quote h, List.filter_map, ofGlyphs, List.map_map]
  exact List.map_id' _

theorem AllBlank.squeeze {text : Text} (h : AllBlank text) : squeeze text = [] := by
  rw [squeeze_of_no_quote fun c hc => isQuote_of_isBlank (h c hc), List.filter_eq_nil_iff]
  intro c hc
  simp [h c hc]

/-- A text without quotes and blanks. -/
def Plain (text : Text) : Prop :=
  ∀ c ∈ text, isQuote c = false ∧ isBlank c = false

instance (text : Text) : Decidable (Plain text) :=
  List.decidableBAll (fun c => isQuote c = false ∧ isBlank c = false) text

theorem Plain.closed {text : Text} (h : Plain text) : Closed text :=
  closed_of_no_quote fun c hc => (h c hc).1

theorem Plain.squeeze_append {front : Text} (h : Plain front) (back : Text) :
    squeeze (front ++ back) = front ++ squeeze back := by
  have hfront : squeeze front = front := by
    rw [squeeze_of_no_quote fun c hc => (h c hc).1, List.filter_eq_self]
    intro c hc
    simp [(h c hc).2]
  rw [h.closed.squeeze_append, hfront]

theorem Closed.squeeze_trim {text : Text} (h : Closed text) :
    squeeze (Text.trim text) = squeeze text := by
  obtain ⟨front, back, hfront, hback, heq⟩ := exists_eq_append_trim text
  conv_rhs => rw [heq]
  rw [List.append_assoc, hfront.closed.squeeze_append, h.trim.squeeze_append, hfront.squeeze,
    hback.squeeze, List.nil_append, List.append_nil]

end TagTemplate.Text
