import TagTemplate.Proofs.Text.Trim
import TagTemplate.Text.Quoted

/-!
# Parts of a text

However a text is cut, at blanks, at a character, outside literals or at a parenthesis,
each part stands in the text as it is.  So whatever is true of all texts inside a text is
true of its parts.
-/

namespace TagTemplate.Text

/-! ## Cuts at blanks and at a character -/

theorem isInfix_of_mem_words {text word : Text} (h : word ∈ words text) : word <:+: text := by
  fun_induction words text with
  | case1 => cases h
  | case2 c text hc ih => exact List.infix_cons (ih h)
  | case3 c text hc ih =>
      rcases List.mem_cons.1 h with rfl | h
      · refine ⟨[], text.dropWhile fun d => !isBlank d, ?_⟩
        rw [List.nil_append, List.cons_append, List.takeWhile_append_dropWhile]
      · exact List.infix_cons ((ih h).trans (List.dropWhile_suffix _).isInfix)

theorem eq_of_cutFirst? {separator : Char} {text front back : Text}
    (h : cutFirst? separator text = some (front, back)) :
    text = front ++ separator :: back ∧ separator ∉ front := by
  induction text generalizing front with
  | nil => cases h
  | cons c text ih =>
      simp only [cutFirst?] at h
      split at h
      · rename_i hc
        simp only [Option.some.injEq, Prod.mk.injEq] at h
        obtain ⟨rfl, rfl⟩ := h
        simp [hc]
      · rename_i hc
        obtain ⟨⟨front', back'⟩, hrest, heq⟩ := Option.map_eq_some_iff.1 h
        simp only [Prod.mk.injEq] at heq
        obtain ⟨rfl, rfl⟩ := heq
        obtain ⟨htext, hmem⟩ := ih hrest
        refine ⟨by rw [htext]; rfl, ?_⟩
        simp [Ne.symm hc, hmem]

theorem cutFirst?_append {separator : Char} {front : Text} (h : separator ∉ front) (back : Text) :
    cutFirst? separator (front ++ separator :: back) = some (front, back) := by
  induction front with
  | nil => simp [cutFirst?]
  | cons c front ih =>
      rw [List.mem_cons, not_or] at h
      rw [List.cons_append, cutFirst?, if_neg (Ne.symm h.1), ih h.2]
      rfl

theorem mem_of_mem_fields {separator c : Char} {text field : Text}
    (hfield : field ∈ (fields separator text).1 :: (fields separator text).2)
    (hc : c ∈ field) : c ∈ text := by
  induction text generalizing field with
  | nil =>
      simp only [fields, List.mem_cons, List.not_mem_nil, or_false] at hfield
      rw [hfield] at hc
      cases hc
  | cons d text ih =>
      simp only [fields] at hfield
      split at hfield
      · rcases List.mem_cons.1 hfield with rfl | hfield
        · cases hc
        · exact List.mem_cons_of_mem d (ih hfield hc)
      · rcases List.mem_cons.1 hfield with rfl | hfield
        · rcases List.mem_cons.1 hc with rfl | hc
          · exact List.mem_cons_self
          · exact List.mem_cons_of_mem d (ih List.mem_cons_self hc)
        · exact List.mem_cons_of_mem d (ih (List.mem_cons_of_mem _ hfield) hc)

theorem not_mem_of_mem_fields {separator : Char} {text field : Text}
    (hfield : field ∈ (fields separator text).1 :: (fields separator text).2) :
    separator ∉ field := by
  induction text generalizing field with
  | nil =>
      simp only [fields, List.mem_cons, List.not_mem_nil, or_false] at hfield
      simp [hfield]
  | cons d text ih =>
      simp only [fields] at hfield
      split at hfield
      · rcases List.mem_cons.1 hfield with rfl | hfield
        · exact List.not_mem_nil
        · exact ih hfield
      · rename_i hd
        rcases List.mem_cons.1 hfield with rfl | hfield
        · simp [Ne.symm hd, ih List.mem_cons_self]
        · exact ih (List.mem_cons_of_mem _ hfield)

theorem fields_of_not_mem {separator : Char} {text : Text} (h : separator ∉ text) :
    fields separator text = (text, []) := by
  induction text with
  | nil => rfl
  | cons c text ih =>
      rw [List.mem_cons, not_or] at h
      rw [fields, ih h.2]
      exact if_neg (Ne.symm h.1)

theorem exists_mem_fields (separator : Char) {c : Char} {text : Text} (hc : c ∈ text) :
    c = separator ∨
      ∃ field ∈ (fields separator text).1 :: (fields separator text).2, c ∈ field := by
  induction text with
  | nil => cases hc
  | cons d text ih =>
      simp only [fields]
      rcases List.mem_cons.1 hc with rfl | hc
      · split
        · exact Or.inl ‹_›
        · exact Or.inr ⟨_, List.mem_cons_self, List.mem_cons_self⟩
      · rcases ih hc with rfl | ⟨field, hfield, hmem⟩
        · exact Or.inl rfl
        · right
          split
          · exact ⟨field, List.mem_cons_of_mem _ hfield, hmem⟩
          · rcases List.mem_cons.1 hfield with rfl | hfield
            · exact ⟨_, List.mem_cons_self, List.mem_cons_of_mem d hmem⟩
            · exact ⟨field, List.mem_cons_of_mem _ hfield, hmem⟩

theorem mem_intercalate {separator : Text} {texts : List Text} {c : Char}
    (h : c ∈ List.intercalate separator texts) : c ∈ separator ∨ ∃ text ∈ texts, c ∈ text := by
  induction texts with
  | nil => cases h
  | cons text texts ih =>
      cases texts with
      | nil =>
          rw [List.intercalate_singleton] at h
          exact Or.inr ⟨text, List.mem_cons_self, h⟩
      | cons next others =>
          rw [List.intercalate_cons_cons] at h
          rcases List.mem_append.1 h with h | h
          · rcases List.mem_append.1 h with h | h
            · exact Or.inr ⟨text, List.mem_cons_self, h⟩
            · exact Or.inl h
          · rcases ih h with h | ⟨found, hfound, hmem⟩
            · exact Or.inl h
            · exact Or.inr ⟨found, List.mem_cons_of_mem text hfound, hmem⟩

theorem isInfix_intercalate (separator : Text) {texts : List Text} {text : Text}
    (h : text ∈ texts) : text <:+: List.intercalate separator texts := by
  induction texts with
  | nil => cases h
  | cons first others ih =>
      cases others with
      | nil =>
          rw [List.mem_singleton.1 h, List.intercalate_singleton]
      | cons next others =>
          rw [List.intercalate_cons_cons]
          rcases List.mem_cons.1 h with rfl | h
          · exact ⟨[], separator ++ List.intercalate separator (next :: others), by simp⟩
          · exact (ih h).trans List.infix_append_right

/-! ## Cuts outside literals -/

@[simp] theorem ofGlyphs_append (front back : List Glyph) :
    ofGlyphs (front ++ back) = ofGlyphs front ++ ofGlyphs back :=
  List.map_append

@[simp] theorem ofGlyphs_cons (glyph : Glyph) (glyphs : List Glyph) :
    ofGlyphs (glyph :: glyphs) = glyph.char :: ofGlyphs glyphs := rfl

theorem cutWhere_spec (isCut : Option Glyph → Glyph → Option Glyph → Bool)
    (before : Option Glyph) (glyphs : List Glyph) :
    (cutWhere isCut before glyphs).1 <+: glyphs ∧
      ∀ part ∈ (cutWhere isCut before glyphs).2, part <:+: glyphs := by
  induction glyphs generalizing before with
  | nil => simp [cutWhere]
  | cons glyph rest ih =>
      obtain ⟨hfirst, hothers⟩ := ih (some glyph)
      simp only [cutWhere]
      split
      · refine ⟨List.nil_prefix, ?_⟩
        intro part hpart
        rcases List.mem_cons.1 hpart with rfl | hpart
        · exact List.infix_cons hfirst.isInfix
        · exact List.infix_cons (hothers part hpart)
      · exact ⟨(List.prefix_cons_inj glyph).2 hfirst,
          fun part hpart => List.infix_cons (hothers part hpart)⟩

theorem isInfix_of_mem_cutWhere {isCut : Option Glyph → Glyph → Option Glyph → Bool}
    {text part : Text}
    (h : part ∈ (trimParts (cutWhere isCut none (marks text))).1 ::
      (trimParts (cutWhere isCut none (marks text))).2) : part <:+: text := by
  obtain ⟨hfirst, hothers⟩ := cutWhere_spec isCut none (marks text)
  have hback : ∀ {glyphs : List Glyph}, glyphs <:+: marks text →
      trim (ofGlyphs glyphs) <:+: text := by
    intro glyphs hglyphs
    have hmap := hglyphs.map Glyph.char
    have htext : (marks text).map Glyph.char = text := ofGlyphs_marks text
    rw [htext] at hmap
    exact (trim_isInfix _).trans hmap
  rcases List.mem_cons.1 h with rfl | h
  · exact hback hfirst.isInfix
  · obtain ⟨glyphs, hglyphs, rfl⟩ := List.mem_map.1 h
    exact hback (hothers glyphs hglyphs)

theorem isInfix_of_mem_splitOutside {separator : Char} {text part : Text}
    (h : part ∈ (splitOutside separator text).1 :: (splitOutside separator text).2) :
    part <:+: text :=
  isInfix_of_mem_cutWhere h

theorem isInfix_of_mem_splitPipes {text part : Text}
    (h : part ∈ (splitPipes text).1 :: (splitPipes text).2) : part <:+: text :=
  isInfix_of_mem_cutWhere h

theorem splitAtBlank_append (text : Text) :
    (splitAtBlank text).1 ++ (splitAtBlank text).2 = text := by
  simp only [splitAtBlank, ofGlyphs, ← List.map_append, List.takeWhile_append_dropWhile]
  exact ofGlyphs_marks text

/-! ## Surrounding quotes -/

theorem stripQuote?_isInfix {quote : Char} {text inner : Text}
    (h : stripQuote? quote text = some inner) : inner <:+: text := by
  cases text with
  | nil => cases h
  | cons c text =>
      simp only [stripQuote?] at h
      split at h
      · obtain rfl := Option.some.inj h
        exact List.infix_cons (List.dropLast_prefix text).isInfix
      · cases h

theorem stripQuotes_isInfix (text : Text) : stripQuotes text <:+: text := by
  simp only [stripQuotes]
  cases hdouble : stripQuote? '\x22' (trim text) with
  | some inner => exact (stripQuote?_isInfix hdouble).trans (trim_isInfix text)
  | none =>
      cases hsingle : stripQuote? '\x27' (trim text) with
      | some inner => exact (stripQuote?_isInfix hsingle).trans (trim_isInfix text)
      | none => exact trim_isInfix text

theorem stripQuotes_eq_trim {text : Text} (h : ∀ c ∈ text, isQuote c = false) :
    stripQuotes text = trim text := by
  have hnone : ∀ quote, isQuote quote = true → stripQuote? quote (trim text) = none := by
    intro quote hquote
    cases htrim : trim text with
    | nil => rfl
    | cons c rest =>
        refine if_neg fun hends => ?_
        have hc : c ∈ trim text := by
          rw [htrim]
          exact List.mem_cons_self
        have hnot := h c ((trim_isInfix text).subset hc)
        rw [hends.1, hquote] at hnot
        cases hnot
  rw [stripQuotes, hnone '\x22' rfl, hnone '\x27' rfl]
  rfl

end TagTemplate.Text
