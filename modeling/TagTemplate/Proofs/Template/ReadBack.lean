import TagTemplate.Proofs.Tag.FragmentLaw
import TagTemplate.Proofs.Template.Output
import TagTemplate.Proofs.Text.Pair

/-!
# Reading compiled templates back

The chunks of a compiled template are tags to a compiler whose source delimiters are the
target delimiters.  Such a compiler finds them again, each with the code that was put
there, as long as no literal text has an opening target delimiter and no code has a
closing one.
-/

namespace TagTemplate.Compiler

open Text

/-- The space of a pad is no part of a pair. -/
theorem apart_pad {c d : Char} (hc : c ≠ ' ') (hd : d ≠ ' ') {front code back : Text}
    (hfront : front = [] ∨ front = [' ']) (hback : back = [] ∨ back = [' '])
    (h : Apart c d code) : Apart c d (front ++ code ++ back) := by
  have hblank : Apart c d [' '] := apart_of_not_mem_left (by simpa using hc)
  have hleft : Apart c d (front ++ code) := by
    rcases hfront with rfl | rfl
    · exact h
    · refine apart_append.2 ⟨hblank, h, ?_⟩
      rintro ⟨hlast, -⟩
      exact hc (by simpa using hlast.symm)
  rcases hback with rfl | rfl
  · simpa using hleft
  · refine apart_append.2 ⟨hleft, hblank, ?_⟩
    rintro ⟨-, hhead⟩
    exact hd (by simpa using hhead.symm)

/-- Code holds no line feed, since bodies hold none. -/
theorem newline_not_mem_compileTag {source : Text} :
    ∀ body ∈ (standard.segments source).bodies, '\n' ∉ standard.compileTag body := by
  intro body hbody hmem
  have hline := Segments.newline_not_mem_bodies startsSolid_standard _ body hbody
  have hmark : ∀ c ∈ Config.standard.metaMark, c ≠ '\n' := by
    rintro c hc rfl
    exact absurd hc (by decide)
  have hallowed : ∀ c ∈ standard.compileTag body, c ≠ '\n' := by
    refine Reading.allowed_of_mem_fragment ?_ hmark ?_
    · rintro c hc rfl
      exact absurd hc (by decide)
    · rintro c hc rfl
      exact hline hc
  exact hallowed '\n' hmem rfl

/-- The chunk of a tag, as a tag between the target delimiters. -/
def chunk (compiler : Compiler) (tag : Tag) : Tag :=
  let code := compiler.compileTag tag.body
  ⟨frontPad compiler.config code ++ code ++ backPad compiler.config code⟩

/-- The segments of the compiled template. -/
def chunks (compiler : Compiler) (segments : Segments) : Segments :=
  ⟨segments.tags.map fun (before, tag) => (before, compiler.chunk tag), segments.rest⟩

theorem body_chunk (compiler : Compiler) (tag : Tag) :
    (compiler.chunk tag).body = Text.trim (compiler.compileTag tag.body) := by
  have hfront := allBlank_of_pad (frontPad_eq compiler.config (compiler.compileTag tag.body))
  have hback := allBlank_of_pad (backPad_eq compiler.config (compiler.compileTag tag.body))
  unfold Tag.body chunk
  dsimp only
  rw [trim_append_of_allBlank_right _ hback, trim_append_of_allBlank_left hfront]
  rfl

theorem source_chunks (compiler : Compiler) {delimiters : Delimiters}
    (hopen : delimiters.opening = compiler.config.targetOpen)
    (hclose : delimiters.closing = compiler.config.targetClose) (segments : Segments) :
    (compiler.chunks segments).source delimiters = segments.splice compiler.wrapTag := by
  have hchunk : ∀ tag, (compiler.chunk tag).source delimiters = compiler.wrapTag tag := by
    intro tag
    rw [Tag.source, wrapTag, wrap_eq, hopen, hclose]
    rfl
  unfold Segments.source Segments.splice chunks
  rw [List.flatMap_map]
  simp only [hchunk]

/-- The compiled output can be read back: the tags between target delimiters have the
trimmed codes as their bodies, and the literal texts are those of the template. -/
theorem scan_compile (source : Text) (reader : Compiler)
    (hopening : reader.config.sourceOpen = Config.standard.targetOpen)
    (hclosing : reader.config.sourceClose = Config.standard.targetClose)
    (hliterals : ∀ literal ∈ (standard.segments source).literals,
      ¬ Config.standard.targetOpen <:+: literal)
    (hcodes : ∀ body ∈ (standard.segments source).bodies,
      ¬ Config.standard.targetClose <:+: standard.compileTag body) :
    (reader.scan (standard.compile source)).bodies =
        (standard.segments source).bodies.map (fun body => Text.trim (standard.compileTag body)) ∧
      (reader.scan (standard.compile source)).literals = (standard.segments source).literals := by
  have hopen : reader.sourceDelimiters.opening = ['<', '%'] := hopening
  have hclose : reader.sourceDelimiters.closing = ['%', '>'] := hclosing
  have hsolid : StartsSolid reader.sourceDelimiters.closing := ⟨'%', ['>'], hclose, by decide⟩
  have hlegible : Segments.Legible reader.sourceDelimiters
      (standard.chunks (standard.segments source)) := by
    constructor
    · intro part hpart
      obtain ⟨⟨before, tag⟩, hmem, rfl⟩ := List.mem_map.1 hpart
      have hliteral := hliterals before (Segments.mem_literals_of_mem_tags hmem)
      rw [hopen]
      exact endsFirst_pair (by decide) (apart_iff.2 hliteral)
    · intro part hpart
      obtain ⟨⟨before, tag⟩, hmem, rfl⟩ := List.mem_map.1 hpart
      have hcode := hcodes tag.body (Segments.mem_bodies_of_mem_tags hmem)
      rw [hclose]
      exact endsFirst_pair (by decide) (apart_pad (by decide) (by decide) (frontPad_eq _ _)
        (backPad_eq _ _) (apart_iff.2 hcode))
    · intro part hpart
      obtain ⟨⟨before, tag⟩, hmem, rfl⟩ := List.mem_map.1 hpart
      have hline := newline_not_mem_compileTag tag.body (Segments.mem_bodies_of_mem_tags hmem)
      rw [body_chunk]
      exact fun hnew => hline ((trim_isInfix _).subset hnew)
    · rw [hopen]
      exact hliterals _ (Segments.rest_mem_literals _)
  have hscan : reader.scan (standard.compile source) =
      standard.chunks (standard.segments source) := by
    have hread := Segments.ofText_source hsolid hlegible
    rw [source_chunks standard (hopen.trans rfl) (hclose.trans rfl)] at hread
    exact hread
  rw [hscan]
  constructor
  · simp [chunks, Segments.bodies, body_chunk]
  · simp [chunks, Segments.literals]

/-- A compiler of target code: its source tags are the chunks of the standard compiler. -/
def targetReader : Compiler :=
  ⟨⟨"<%".toList, "%>".toList, "[".toList, "]".toList, "__".toList⟩, by decide⟩

/-- Among the codes are one that starts with a closing brace and an empty one. -/
theorem scan_compile_of_condition :
    let source := "a\x7b% if $x %\x7d>\x7b% / %\x7d%>\x7b% %\x7d".toList
    let output := "a<%if (x) \x7b %>><% \x7d%>%><%%>".toList
    (standard.segments source).bodies = ["if $x".toList, "/".toList, []] ∧
      standard.compile source = output ∧
      (targetReader.scan output).bodies = ["if (x) \x7b".toList, "\x7d".toList, []] ∧
      (targetReader.scan output).literals = ["a".toList, ">".toList, "%>".toList, []] := by
  intro source output
  have hbodies : (standard.segments source).bodies = ["if $x".toList, "/".toList, []] := by
    decide +kernel
  have hliterals : (standard.segments source).literals =
      ["a".toList, ">".toList, "%>".toList, []] := by decide +kernel
  have houtput : standard.compile source = output := by decide +kernel
  obtain ⟨hread, hkept⟩ :=
    scan_compile source targetReader rfl rfl (by decide +kernel) (by decide +kernel)
  have hcodes : (standard.segments source).bodies.map
      (fun body => Text.trim (standard.compileTag body)) =
        ["if (x) \x7b".toList, "\x7d".toList, []] := by decide +kernel
  rw [houtput] at hread hkept
  exact ⟨hbodies, houtput, hread.trans hcodes, hkept.trans hliterals⟩

end TagTemplate.Compiler
