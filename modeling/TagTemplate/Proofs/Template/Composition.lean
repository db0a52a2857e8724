import TagTemplate.Proofs.Template.Output
import TagTemplate.Proofs.Template.Strip
import TagTemplate.Proofs.Text.Pair

/-!
# Compiling a template in two parts

A template may be cut in two behind text that is surely literal, and the parts compiled
one by one: nothing that stands in the second part can make a tag, or the start of a
strip block, out of what the first part leaves open.
-/

namespace TagTemplate.Compiler

open Text

/-- The closing brace of the tag that starts a strip block is its only one. -/
theorem not_mem_of_append_opener {front back : Text} (hne : back ≠ [])
    (h : StripBlock.IsOpener standard.sourceDelimiters (front ++ back)) : '\x7d' ∉ front := by
  obtain ⟨inner, heq, hinner⟩ := h.exists_inner
  have hsplit : front ++ back = ("\x7b%".toList ++ inner ++ ['%']) ++ ['\x7d'] := by
    rw [heq, opening_standard, closing_standard]
    simp
  have hfront : front <+: "\x7b%".toList ++ inner ++ ['%'] := by
    have hlength := congrArg List.length hsplit
    have hpos := List.length_pos_iff.2 hne
    simp only [List.length_append, List.length_singleton] at hlength
    refine List.prefix_of_prefix_length_le ⟨back, hsplit⟩ (List.prefix_append _ _) ?_
    simp only [List.length_append, List.length_singleton]
    omega
  intro hmem
  have hwhole := hfront.subset hmem
  rw [List.mem_append, List.mem_append] at hwhole
  rcases hwhole with (hopen | hmem) | hlast
  · exact absurd hopen (by decide)
  · exact absurd (hinner _ hmem) (by decide)
  · exact absurd hlast (by decide)

/-- A text ends where its last tag ends, apart from the literal text behind it. -/
theorem closing_isSuffix_of_tags_ne_nil (delimiters : Delimiters)
    {tags : List (Text × Tag)} (h : tags ≠ []) :
    delimiters.closing <:+ tags.flatMap fun (before, tag) => before ++ tag.source delimiters := by
  obtain ⟨others, last, rfl⟩ := (List.eq_nil_or_concat tags).resolve_left h
  rw [List.concat_eq_append, List.flatMap_append]
  refine ⟨(others.flatMap fun (before, tag) => before ++ tag.source delimiters) ++
    (last.1 ++ delimiters.opening ++ last.2.inner), ?_⟩
  simp [Tag.source]

/-- A suffix that goes beyond the last literal text has the closing brace of a tag. -/
theorem mem_of_rest_isSuffix {text start : Text} (hstart : start <:+ text)
    (hlength : (standard.scan text).rest.length < start.length) : '\x7d' ∈ start := by
  have hsource := Segments.source_ofText standard.sourceDelimiters text
  rw [Segments.source] at hsource
  have htags : (standard.scan text).tags ≠ [] := by
    intro hnil
    have hrest := Segments.rest_of_tags_eq_nil hnil
    have hle := hstart.length_le
    rw [scan, hrest] at hlength
    omega
  obtain ⟨before, hbefore⟩ := closing_isSuffix_of_tags_ne_nil standard.sourceDelimiters htags
  rw [scan] at hbefore hlength
  rw [← hbefore, closing_standard] at hsource
  have hsuffix : ['\x7d'] ++ (Segments.ofText standard.sourceDelimiters text).rest <:+ text :=
    ⟨before ++ ['%'], by simpa using hsource⟩
  have hinner : ['\x7d'] ++ (Segments.ofText standard.sourceDelimiters text).rest <:+ start := by
    refine List.suffix_of_suffix_length_le hsuffix hstart ?_
    simp only [List.length_append, List.length_singleton]
    omega
  exact hinner.subset (by simp)

/-- No strip block begins in text that holds no whole start of one and ends in clear
literal text. -/
theorem stripBlock_read?_eq_none {front back start : Text}
    (hstrip : ∀ tag, StripBlock.IsOpener standard.sourceDelimiters tag → ¬ tag <:+: front)
    (hclear : Clear standard.sourceDelimiters.opening (standard.scan front).rest)
    (hstart : start <:+ front) (hne : start ≠ []) :
    StripBlock.read? standard.sourceDelimiters (start ++ back) = none := by
  apply StripBlock.read?_eq_none_of_no_opener
  intro tag htag hbegin
  by_cases hlength : tag.length ≤ start.length
  · have hwhole := List.prefix_of_prefix_length_le hbegin (List.prefix_append start back) hlength
    exact hstrip tag htag (hwhole.isInfix.trans hstart.isInfix)
  · obtain ⟨others, rfl⟩ := List.prefix_of_prefix_length_le (List.prefix_append start back) hbegin
      (by omega)
    have hothers : others ≠ [] := by
      rintro rfl
      simp at hlength
    by_cases hrest : start.length ≤ (standard.scan front).rest.length
    · have hsuffix : (standard.scan front).rest <:+ front :=
        ⟨_, Segments.source_ofText standard.sourceDelimiters front⟩
      have hinside := List.suffix_of_suffix_length_le hstart hsuffix hrest
      have hnone := hclear start hinside hne back
      rw [after?_eq_none_iff] at hnone
      exact hnone (htag.opening_isPrefix.trans hbegin)
    · exact not_mem_of_append_opener hothers htag (mem_of_rest_isSuffix hstart (by omega))

theorem stripBlocks_append {front : Text} (back : Text)
    (hstrip : ∀ tag, StripBlock.IsOpener standard.sourceDelimiters tag → ¬ tag <:+: front)
    (hclear : Clear standard.sourceDelimiters.opening (standard.scan front).rest) :
    standard.stripBlocks (front ++ back) = front ++ standard.stripBlocks back :=
  StripBlock.unwrap_append fun _ hstart hne => stripBlock_read?_eq_none hstrip hclear hstart hne

/-- Compilation is compositional: the first part holds no start of a strip block, and the
literal text behind its last tag neither holds an opening delimiter nor ends with the
first character of one. -/
theorem compile_append (front back : Text)
    (hstrip : ∀ tag, StripBlock.IsOpener standard.sourceDelimiters tag → ¬ tag <:+: front)
    (hopen : ¬ Config.standard.sourceOpen <:+: (standard.scan front).rest)
    (hlast : (standard.scan front).rest.getLast? ≠ some '\x7b') :
    standard.compile (front ++ back) = standard.compile front ++ standard.compile back := by
  have hclear : Clear standard.sourceDelimiters.opening (standard.scan front).rest :=
    clear_pair (apart_iff.2 hopen) hlast
  have hfront : standard.stripBlocks front = front := by
    have happend := stripBlocks_append [] hstrip hclear
    simpa [stripBlocks, StripBlock.unwrap_nil] using happend
  have hscan : standard.scan (front ++ standard.stripBlocks back) =
      Segments.append (standard.scan front) (standard.scan (standard.stripBlocks back)) :=
    Segments.ofText_append startsSolid_standard _ hclear
  rw [compile, stripBlocks_append back hstrip hclear, hscan, Segments.splice_append, compile,
    hfront, compile]

/-- The first part has an opening delimiter that is never closed on its line, and a tag whose
closing delimiter overlaps another opening one. -/
theorem compile_append_behind_unclosed_tag :
    let front := "\x7b%x\n\x7b% $a\x7b%\x7dc".toList
    let back := "d\x7b%/%\x7d".toList
    standard.compile front = "\x7b%x\n<%=(a\x7b).stringify()%>c".toList ∧
      standard.compile back = "d<% \x7d%>".toList ∧
      standard.compile (front ++ back) =
        "\x7b%x\n<%=(a\x7b).stringify()%>cd<% \x7d%>".toList := by
  intro front back
  have hfront : standard.compile front = "\x7b%x\n<%=(a\x7b).stringify()%>c".toList := by
    decide +kernel
  have hback : standard.compile back = "d<% \x7d%>".toList := by decide +kernel
  have happend : standard.compile (front ++ back) =
      standard.compile front ++ standard.compile back := by
    apply compile_append
    · rintro tag ⟨left, right, -, -, rfl⟩ hin
      have hmem : 's' ∈ front := hin.subset (by simp)
      exact absurd hmem (by decide)
    · decide +kernel
    · decide +kernel
  refine ⟨hfront, hback, ?_⟩
  rw [happend, hfront, hback]
  rfl

end TagTemplate.Compiler
