import TagTemplate.Proofs.Template.Output
import TagTemplate.Proofs.Template.Strip

/-!
# Templates written in other delimiters

The same literal texts and tag bodies can be written with the delimiters of any
configuration.  Where no delimiter comes about that was not written, scanning gives the
texts and bodies back, and two configurations with the same metadata mark compile them to
the same code: only the delimiters around it differ (`compile_written`).
-/

namespace TagTemplate.Compiler

open Text

/-- The segments that literal texts and bodies make: each part is a literal text with the
body of the tag behind it, which stands between two spaces. -/
def partSegments (parts : List (Text × Text)) (last : Text) : Segments :=
  ⟨parts.map fun (before, body) => (before, ⟨[' '] ++ body ++ [' ']⟩), last⟩

/-- Literal texts and bodies as a template in the source delimiters of a compiler. -/
def written (compiler : Compiler) (parts : List (Text × Text)) (last : Text) : Text :=
  (parts.flatMap fun (before, body) =>
    before ++ compiler.config.sourceOpen ++ [' '] ++ body ++ [' '] ++
      compiler.config.sourceClose) ++ last

/-- In the delimiters of the compiler, no delimiter comes about that was not written. -/
structure Unambiguous (compiler : Compiler) (parts : List (Text × Text)) (last : Text) :
    Prop where
  /-- Closing delimiters hold no blank. -/
  closing : ∀ c ∈ compiler.config.sourceClose, isBlank c = false
  /-- Behind each literal text, the opening delimiter stands only where it was put. -/
  opening : ∀ part ∈ parts, ∀ before behind,
    part.1 ++ compiler.config.sourceOpen = before ++ compiler.config.sourceOpen ++ behind →
      behind = []
  /-- No tag opens behind the last one. -/
  rest : ¬ compiler.config.sourceOpen <:+: last
  /-- Bodies have no blanks around them. -/
  trimmed : ∀ part ∈ parts, trim part.2 = part.2
  /-- Bodies are on one line. -/
  oneLine : ∀ part ∈ parts, '\n' ∉ part.2
  /-- No tag ends in its body. -/
  body : ∀ part ∈ parts, ¬ compiler.config.sourceClose <:+: part.2
  /-- No strip block is taken apart. -/
  strip : compiler.stripBlocks (compiler.written parts last) = compiler.written parts last

theorem source_partSegments (compiler : Compiler) (parts : List (Text × Text)) (last : Text) :
    (partSegments parts last).source compiler.sourceDelimiters = compiler.written parts last := by
  simp [partSegments, written, Segments.source, Tag.source, sourceDelimiters, List.flatMap_map]

theorem body_spaced {body : Text} (h : trim body = body) :
    (⟨[' '] ++ body ++ [' ']⟩ : Tag).body = body := by
  have hspace : AllBlank [' '] := by decide
  rw [Tag.body, trim_append_of_allBlank_right _ hspace, trim_append_of_allBlank_left hspace, h]

/-- A delimiter without blanks cannot begin before the space behind the body. -/
theorem endsFirst_spaced {token body : Text} (htoken : ∀ c ∈ token, isBlank c = false)
    (hne : token ≠ []) (h : ¬ token <:+: body) : EndsFirst token ([' '] ++ body ++ [' ']) := by
  have hspace : ' ' ∉ token := by
    intro hmem
    have hsolid := htoken ' ' hmem
    revert hsolid
    decide
  apply endsFirst_append_singleton hspace
  rw [List.singleton_append, List.infix_cons_iff, not_or]
  refine ⟨?_, h⟩
  rintro ⟨rest, heq⟩
  obtain ⟨c, token, rfl⟩ := List.exists_cons_of_ne_nil hne
  obtain rfl := (List.cons.inj heq).1
  exact hspace List.mem_cons_self

section

variable {compiler : Compiler} {parts : List (Text × Text)} {last : Text}

theorem Unambiguous.startsSolid (h : Unambiguous compiler parts last) :
    StartsSolid compiler.sourceDelimiters.closing := by
  obtain ⟨c, rest, heq⟩ := List.exists_cons_of_ne_nil compiler.sourceDelimiters.closing_ne_nil
  refine ⟨c, rest, heq, h.closing c ?_⟩
  have hmem : c ∈ compiler.sourceDelimiters.closing := by
    rw [heq]
    exact List.mem_cons_self
  exact hmem

theorem Unambiguous.legible (h : Unambiguous compiler parts last) :
    Segments.Legible compiler.sourceDelimiters (partSegments parts last) where
  opening := by
    intro part hpart
    obtain ⟨written, hwritten, rfl⟩ := List.mem_map.1 hpart
    exact endsFirst_iff.2 (h.opening written hwritten)
  closing := by
    intro part hpart
    obtain ⟨written, hwritten, rfl⟩ := List.mem_map.1 hpart
    exact endsFirst_spaced h.closing compiler.sourceDelimiters.closing_ne_nil
      (h.body written hwritten)
  oneLine := by
    intro part hpart
    obtain ⟨written, hwritten, rfl⟩ := List.mem_map.1 hpart
    have hbody := body_spaced (h.trimmed written hwritten)
    simp only [hbody]
    exact h.oneLine written hwritten
  last := h.rest

/-- The template is cut where it was put together. -/
theorem Unambiguous.scan_written (h : Unambiguous compiler parts last) :
    compiler.scan (compiler.written parts last) = partSegments parts last := by
  rw [scan, ← source_partSegments]
  exact Segments.ofText_source h.startsSolid h.legible

theorem Unambiguous.bodies_partSegments (h : Unambiguous compiler parts last) :
    (partSegments parts last).bodies = parts.map Prod.snd := by
  simp only [partSegments, Segments.bodies, List.map_map]
  refine List.map_congr_left ?_
  intro part hpart
  exact body_spaced (h.trimmed part hpart)

theorem literals_partSegments :
    (partSegments parts last).literals = parts.map Prod.fst ++ [last] := by
  simp [partSegments, Segments.literals]

theorem Unambiguous.splice_partSegments (h : Unambiguous compiler parts last) :
    (partSegments parts last).splice compiler.wrapTag =
      (parts.flatMap fun (before, body) =>
        before ++ wrap compiler.config (compiler.compileTag body)) ++ last := by
  simp only [partSegments, Segments.splice, List.flatMap_map]
  congr 1
  refine List.flatMap_congr ?_
  intro part hpart
  have hbody := body_spaced (h.trimmed part hpart)
  simp only [wrapTag, hbody]

end

/-- Of a configuration, the code of a tag depends on the metadata mark only. -/
theorem compileTag_eq_of_metaMark {left right : Compiler}
    (h : left.config.metaMark = right.config.metaMark) (body : Text) :
    right.compileTag body = left.compileTag body := by
  simp only [compileTag, classify, h]

/-- Delimiters do not matter to tags: the same literal texts and bodies, written in the
delimiters of two configurations with the same metadata mark, are read back from both
templates and compile to the same code, each time between the target delimiters of the
configuration. -/
theorem compile_written (left right : Compiler) (parts : List (Text × Text)) (last : Text)
    (hmark : left.config.metaMark = right.config.metaMark)
    (hleft : Unambiguous left parts last) (hright : Unambiguous right parts last) :
    (∀ body, right.compileTag body = left.compileTag body) ∧
      ∀ compiler ∈ [left, right],
        (compiler.scan (compiler.written parts last)).bodies = parts.map Prod.snd ∧
        (compiler.scan (compiler.written parts last)).literals = parts.map Prod.fst ++ [last] ∧
        compiler.compile (compiler.written parts last) =
          (parts.flatMap fun (before, body) =>
            before ++ wrap compiler.config (left.compileTag body)) ++ last := by
  have hcode := compileTag_eq_of_metaMark hmark
  refine ⟨hcode, ?_⟩
  have hboth : ∀ compiler, Unambiguous compiler parts last →
      (∀ body, compiler.compileTag body = left.compileTag body) →
        (compiler.scan (compiler.written parts last)).bodies = parts.map Prod.snd ∧
        (compiler.scan (compiler.written parts last)).literals = parts.map Prod.fst ++ [last] ∧
        compiler.compile (compiler.written parts last) =
          (parts.flatMap fun (before, body) =>
            before ++ wrap compiler.config (left.compileTag body)) ++ last := by
    intro compiler h hsame
    refine ⟨?_, ?_, ?_⟩
    · rw [h.scan_written, h.bodies_partSegments]
    · rw [h.scan_written, literals_partSegments]
    · rw [compile, h.strip, h.scan_written, h.splice_partSegments]
      simp only [hsame]
  intro compiler hcompiler
  simp only [List.mem_cons, List.not_mem_nil, or_false] at hcompiler
  rcases hcompiler with rfl | rfl
  · exact hboth _ hleft fun _ => rfl
  · exact hboth _ hright hcode

/-- One delimiter for both ends, which overlaps itself. -/
def doubled : Compiler :=
  ⟨{ Config.standard with sourceOpen := "((".toList, sourceClose := "((".toList }, by decide⟩

/-- The literal texts and bodies hold parts of the delimiters of both configurations. -/
theorem compile_written_standard_doubled :
    let parts := [("\x7b".toList, "if $a".toList), ("%\x7d(x".toList, "count($a)".toList),
      ([], "/".toList)]
    let last := "(%".toList
    standard.config.metaMark = doubled.config.metaMark ∧
      Unambiguous standard parts last ∧ Unambiguous doubled parts last ∧
      standard.compile (standard.written parts last) =
        (parts.flatMap fun (before, body) =>
          before ++ wrap standard.config (standard.compileTag body)) ++ last ∧
      doubled.compile (doubled.written parts last) =
        (parts.flatMap fun (before, body) =>
          before ++ wrap doubled.config (standard.compileTag body)) ++ last := by
  intro parts last
  have hstandard : Unambiguous standard parts last :=
    { closing := by
        have hsolid : standard.config.sourceClose.all (fun c => !isBlank c) = true := by decide
        simpa using hsolid
      opening := by
        have hfirst : ∀ part ∈ parts, EndsFirst standard.config.sourceOpen part.1 := by
          unfold EndsFirst
          decide
        exact fun part hpart => endsFirst_iff.1 (hfirst part hpart)
      rest := by decide
      trimmed := by decide
      oneLine := by decide
      body := by decide
      strip := StripBlock.unwrap_eq_self_of_no_word (by decide) }
  have hdoubled : Unambiguous doubled parts last :=
    { closing := by
        have hsolid : doubled.config.sourceClose.all (fun c => !isBlank c) = true := by decide
        simpa using hsolid
      opening := by
        have hfirst : ∀ part ∈ parts, EndsFirst doubled.config.sourceOpen part.1 := by
          unfold EndsFirst
          decide
        exact fun part hpart => endsFirst_iff.1 (hfirst part hpart)
      rest := by decide
      trimmed := by decide
      oneLine := by decide
      body := by decide
      strip := StripBlock.unwrap_eq_self_of_no_word (by decide) }
  obtain ⟨-, hsame⟩ := compile_written standard doubled parts last rfl hstandard hdoubled
  exact ⟨rfl, hstandard, hdoubled, (hsame standard (by simp)).2.2, (hsame doubled (by simp)).2.2⟩

end TagTemplate.Compiler
