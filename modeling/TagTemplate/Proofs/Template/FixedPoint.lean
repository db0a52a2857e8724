import TagTemplate.Proofs.Template.Output
import TagTemplate.Proofs.Template.Strip
import TagTemplate.Proofs.Text.Occurrences
import TagTemplate.Proofs.Text.Pair

/-!
# Templates that compile to themselves

A chunk of target code never stands where a tag was: the one begins with `<`, the other
with an opening brace.  So the templates that compile to themselves are those in which
no tag can be read (`compile_eq_self_iff`).
-/

namespace TagTemplate.Compiler

open Text

theorem not_mem_opener {tag : Text} (h : StripBlock.IsOpener standard.sourceDelimiters tag) :
    '<' ∉ tag := by
  obtain ⟨inner, rfl, hinner⟩ := h.exists_inner
  intro hmem
  rw [opening_standard, closing_standard, List.mem_append, List.mem_append] at hmem
  rcases hmem with (hopen | hmem) | hclose
  · exact absurd hopen (by decide)
  · exact absurd (hinner _ hmem) (by decide)
  · exact absurd hclose (by decide)

/-- The start of a strip block can be read as a tag. -/
theorem read?_opener {tag : Text} (h : StripBlock.IsOpener standard.sourceDelimiters tag)
    (rest : Text) : ∃ found, Tag.read? standard.sourceDelimiters (tag ++ rest) = some found := by
  obtain ⟨left, right, hleft, hright, rfl⟩ := h
  have hpercent : ∀ {text : Text}, AllBlank text → '%' ∉ text := by
    intro text htext hmem
    exact absurd (htext _ hmem) (by decide)
  have hinner : '%' ∉ left ++ "strip".toList ++ right := by
    simp only [List.mem_append, not_or]
    exact ⟨⟨hpercent hleft, by decide⟩, hpercent hright⟩
  have hbody : Text.trim (left ++ "strip".toList ++ right) = "strip".toList := by
    rw [trim_append_of_allBlank_right _ hright, trim_append_of_allBlank_left hleft]
    decide
  refine ⟨(⟨left ++ "strip".toList ++ right⟩, rest), ?_⟩
  refine (Tag.read?_eq_some_iff startsSolid_standard).2 ⟨?_, ?_, ?_⟩
  · simp [Tag.source]
  · rw [closing_standard]
    exact endsFirst_pair (by decide) (apart_of_not_mem_left hinner)
  · rw [Tag.body, hbody]
    decide

/-- Where no tag can be read no strip block begins. -/
theorem stripBlocks_eq_self {source : Text} (h : (standard.scan source).tags = []) :
    standard.stripBlocks source = source := by
  rw [scan, Segments.tags_ofText_eq_nil_iff] at h
  apply StripBlock.unwrap_eq_self
  intro start hstart
  apply StripBlock.read?_eq_none_of_no_opener
  rintro tag htag ⟨rest, rfl⟩
  obtain ⟨found, hfound⟩ := read?_opener htag rest
  rw [h _ hstart] at hfound
  cases hfound

/-- A strip block in front of a chunk ends in front of the chunk. -/
theorem opener_isPrefix {tag start more : Text}
    (h : StripBlock.IsOpener standard.sourceDelimiters tag)
    (hbegin : tag <+: start ++ '<' :: more) : tag <+: start :=
  isPrefix_of_not_mem (not_mem_opener h) hbegin

theorem compile_eq_self_iff (source : Text) :
    standard.compile source = source ↔ (standard.scan source).tags = [] := by
  constructor
  · intro hfixed
    by_cases htags : (standard.segments source).tags = []
    · -- Nothing is replaced, so the text without strip blocks is the source itself.
      have hrest := Segments.rest_of_tags_eq_nil htags
      have hcompile : standard.compile source = standard.stripBlocks source := by
        rw [compile_eq, Segments.splice, htags]
        exact hrest
      rw [hfixed] at hcompile
      rw [hcompile]
      exact htags
    · exfalso
      obtain ⟨before, tag, rest, htext, hsegments, hfirst⟩ := Segments.exists_first_tag htags
      obtain ⟨more, hsource⟩ : ∃ more, source = before ++ '<' :: more := by
        have hchunk := hfixed
        rw [compile_eq, segments, scan, hsegments, Segments.splice_cons, wrapTag, wrap_eq] at hchunk
        exact ⟨_, by rw [← hchunk]; simp [standard, Config.standard]; rfl⟩
      have hkept : standard.stripBlocks source =
          before ++ StripBlock.unwrap standard.sourceDelimiters ('<' :: more) := by
        rw [stripBlocks, hsource]
        apply StripBlock.unwrap_append
        intro start hstart hne
        apply StripBlock.read?_eq_none_of_no_opener
        intro opener hopener hbegin
        obtain ⟨behind, hinside⟩ := opener_isPrefix hopener hbegin
        obtain ⟨front, hfront⟩ := hstart
        obtain ⟨found, hfound⟩ :=
          read?_opener hopener (behind ++ tag.source standard.sourceDelimiters ++ rest)
        have hnone := hfirst front start hfront.symm hne
        rw [← hinside] at hnone
        simp only [List.append_assoc] at hnone hfound
        rw [hnone] at hfound
        cases hfound
      have hnone : StripBlock.read? standard.sourceDelimiters ('<' :: more) = none := by
        apply StripBlock.read?_eq_none_of_no_opener
        intro opener hopener hbegin
        have hnil := @opener_isPrefix opener [] more hopener hbegin
        have hopening := List.prefix_nil.1 (hopener.opening_isPrefix.trans hnil)
        exact standard.sourceDelimiters.opening_ne_nil hopening
      have hboth : before ++ '<' :: StripBlock.unwrap standard.sourceDelimiters more =
          before ++ (tag.source standard.sourceDelimiters ++ rest) := by
        rw [← StripBlock.unwrap_of_read?_eq_none hnone, ← hkept, htext, List.append_assoc]
      have hhead := List.append_cancel_left hboth
      rw [Tag.source, opening_standard] at hhead
      simp at hhead
  · intro htags
    have hstrip := stripBlocks_eq_self htags
    have hrest := Segments.rest_of_tags_eq_nil htags
    rw [compile, hstrip, Segments.splice, htags]
    exact hrest

end TagTemplate.Compiler
