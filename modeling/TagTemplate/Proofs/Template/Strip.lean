import TagTemplate.Proofs.Text.Occurrences
import TagTemplate.Proofs.Text.Token
import TagTemplate.Proofs.Text.Trim
import TagTemplate.Template.StripBlock

/-!
# Taking strip blocks apart

`unwrap` goes through a text from left to right: where a strip block can be read its
content is kept and the search goes on behind it, everything else is kept as it is.  A
text in which no tag of a strip block begins is therefore left alone, also in front of
another text.
-/

namespace TagTemplate.StripBlock

open Text

variable {delimiters : Delimiters}

/-- A tag that holds a single word with blanks around it. -/
def WordTag (delimiters : Delimiters) (word tag : Text) : Prop :=
  ∃ left right, AllBlank left ∧ AllBlank right ∧
    tag = delimiters.opening ++ left ++ word ++ right ++ delimiters.closing

/-- The tag that starts a strip block. -/
def IsOpener (delimiters : Delimiters) (tag : Text) : Prop :=
  WordTag delimiters "strip".toList tag

theorem WordTag.opening_isPrefix {word tag : Text} (h : WordTag delimiters word tag) :
    delimiters.opening <+: tag := by
  obtain ⟨left, right, -, -, rfl⟩ := h
  simp only [List.append_assoc]
  exact List.prefix_append _ _

/-- Between its delimiters a tag holds its word and blanks. -/
theorem WordTag.exists_inner {word tag : Text} (h : WordTag delimiters word tag) :
    ∃ inner, tag = delimiters.opening ++ inner ++ delimiters.closing ∧
      ∀ c ∈ inner, isBlank c = true ∨ c ∈ word := by
  obtain ⟨left, right, hleft, hright, rfl⟩ := h
  refine ⟨left ++ word ++ right, by simp, fun c hc => ?_⟩
  rcases List.mem_append.1 hc with hc | hc
  · exact (List.mem_append.1 hc).imp_left (hleft c)
  · exact Or.inl (hright c hc)

theorem wordTag_of_mem_wordTags {word text tag rest : Text}
    (h : (tag, rest) ∈ wordTags delimiters word text) : WordTag delimiters word tag := by
  unfold wordTags at h
  split at h
  · cases h
  · rename_i inside _
    split at h
    · cases h
    · obtain ⟨⟨blanks, rest'⟩, hmem, heq⟩ := List.mem_map.1 h
      simp only [Prod.mk.injEq] at heq
      refine ⟨inside.takeWhile isBlank, blanks, allBlank_takeWhile inside, ?_, ?_⟩
      · exact (eq_of_mem_afterBlanks hmem).2
      · exact heq.1.symm

/-- A block begins with the tag that starts it. -/
theorem isOpener_of_read? {text rest : Text} {block : StripBlock}
    (h : read? delimiters text = some (block, rest)) : IsOpener delimiters block.opener := by
  obtain ⟨⟨opener, inside⟩, hmem, h⟩ := List.exists_of_findSome?_eq_some h
  obtain ⟨⟨content, closer, rest'⟩, -, heq⟩ := Option.map_eq_some_iff.1 h
  simp only [Prod.mk.injEq] at heq
  rw [← heq.1]
  exact wordTag_of_mem_wordTags hmem

theorem read?_eq_none_of_no_opener {text : Text}
    (h : ∀ tag, IsOpener delimiters tag → ¬ tag <+: text) : read? delimiters text = none := by
  rw [Option.eq_none_iff_forall_ne_some]
  rintro ⟨block, rest⟩ hread
  refine h block.opener (isOpener_of_read? hread) ?_
  rw [eq_of_read? hread]
  exact ⟨block.content ++ block.closer ++ rest, by simp⟩

/-! ## One step -/

theorem unwrap_nil : unwrap delimiters [] = [] := by
  rw [unwrap, split]
  rfl

theorem split_of_read? {text rest : Text} {block : StripBlock}
    (h : read? delimiters text = some (block, rest)) :
    split delimiters text =
      (([], block) :: (split delimiters rest).1, (split delimiters rest).2) := by
  cases text with
  | nil =>
      have hlength := length_of_read? h
      simp at hlength
  | cons c text =>
      rw [split]
      split
      · rename_i block' rest' h'
        rw [h] at h'
        obtain ⟨rfl, rfl⟩ := Prod.mk.inj (Option.some.inj h')
        rfl
      · rename_i h'
        rw [h] at h'
        cases h'

theorem split_of_read?_eq_none {text : Text} {c : Char}
    (h : read? delimiters (c :: text) = none) :
    split delimiters (c :: text) =
      match split delimiters text with
      | ([], last) => ([], c :: last)
      | ((before, block) :: blocks, last) => ((c :: before, block) :: blocks, last) := by
  rw [split]
  split
  · rename_i h'
    rw [h] at h'
    cases h'
  · rfl

theorem unwrap_of_read?_eq_none {text : Text} {c : Char}
    (h : read? delimiters (c :: text) = none) :
    unwrap delimiters (c :: text) = c :: unwrap delimiters text := by
  rw [unwrap, split_of_read?_eq_none h]
  rcases hs : split delimiters text with ⟨_ | ⟨⟨before, block⟩, others⟩, last⟩ <;>
    simp [unwrap, hs]

/-- Text in which no block begins goes to what stands before the first block. -/
theorem split_append {front back : Text}
    (h : ∀ start, start <:+ front → start ≠ [] → read? delimiters (start ++ back) = none) :
    split delimiters (front ++ back) =
      match split delimiters back with
      | ([], last) => ([], front ++ last)
      | ((before, block) :: blocks, last) => ((front ++ before, block) :: blocks, last) := by
  induction front with
  | nil =>
      rw [List.nil_append]
      rcases split delimiters back with ⟨_ | ⟨⟨before, block⟩, blocks⟩, last⟩ <;> rfl
  | cons c front ih =>
      have hnone := h (c :: front) (List.suffix_refl _) (List.cons_ne_nil c front)
      have hfront := ih fun start hstart => h start (hstart.trans (List.suffix_cons c front))
      rw [List.cons_append] at hnone ⊢
      rw [split_of_read?_eq_none hnone, hfront]
      rcases split delimiters back with ⟨_ | ⟨⟨before, block⟩, blocks⟩, last⟩ <;> rfl

/-- Text in which no block begins is kept, whatever follows it. -/
theorem unwrap_append {front back : Text}
    (h : ∀ start, start <:+ front → start ≠ [] → read? delimiters (start ++ back) = none) :
    unwrap delimiters (front ++ back) = front ++ unwrap delimiters back := by
  rw [unwrap, split_append h, unwrap]
  rcases split delimiters back with ⟨_ | ⟨⟨before, block⟩, blocks⟩, last⟩ <;> simp

theorem unwrap_eq_self {text : Text} (h : ∀ start, start <:+ text → read? delimiters start = none) :
    unwrap delimiters text = text := by
  have happend : unwrap delimiters (text ++ []) = text ++ unwrap delimiters [] :=
    unwrap_append fun start hstart _ => by simpa using h start hstart
  simpa [unwrap_nil] using happend

theorem unwrap_eq_self_of_lacks {text : Text} (h : Lacks (IsOpener delimiters) text) :
    unwrap delimiters text = text := by
  apply unwrap_eq_self
  intro start hstart
  apply read?_eq_none_of_no_opener
  intro tag htag hbegin
  exact h tag htag (hbegin.isInfix.trans hstart.isInfix)

/-- Every strip block has the word in its start. -/
theorem unwrap_eq_self_of_no_word {text : Text} (h : ¬ "strip".toList <:+: text) :
    unwrap delimiters text = text := by
  apply unwrap_eq_self_of_lacks
  rintro tag ⟨left, right, -, -, rfl⟩ hin
  apply h
  refine List.IsInfix.trans ?_ hin
  exact ⟨delimiters.opening ++ left, right ++ delimiters.closing, by simp⟩

end TagTemplate.StripBlock
