import TagTemplate.Proofs.Tag.Seams
import TagTemplate.Proofs.Template.FixedPoint
import TagTemplate.Proofs.Template.Padding

/-!
# Compiling a compiled template

Padding keeps the opening delimiter away from the seams between literal text, target
delimiters and code.  So a compiled template has an opening delimiter only inside the
code of a tag, and it compiles to itself unless such a delimiter can be read as a tag.
The code of a tag does assemble opening delimiters: dollar signs between the two
characters are dropped, and a call that starts with its operand may stand behind an
opening brace.
-/

namespace TagTemplate.Compiler

open Text

/-- What follows the code of a tag in the compiled template. -/
def behindCode (compiler : Compiler) (tag : Tag) (others : Segments) : Text :=
  backPad compiler.config (compiler.compileTag tag.body) ++
    (compiler.config.targetClose ++ others.splice compiler.wrapTag)

theorem splice_eq_behindCode (compiler : Compiler) (part : Text × Tag)
    (others : List (Text × Tag)) (rest : Text) :
    Segments.splice compiler.wrapTag ⟨part :: others, rest⟩ =
      (part.1 ++ compiler.config.targetOpen ++
        frontPad compiler.config (compiler.compileTag part.2.body)) ++
      (compiler.compileTag part.2.body ++ compiler.behindCode part.2 ⟨others, rest⟩) := by
  rw [Segments.splice_cons, wrapTag, wrap_eq, behindCode]
  simp

/-- Up to its code, a chunk brings about no opening delimiter. -/
theorem shut_front {literal code : Text} (h : Apart '\x7b' '%' literal) :
    Shut '\x7b' '%' (literal ++ Config.standard.targetOpen ++ frontPad Config.standard code) := by
  have hpad : Shut '\x7b' '%' (frontPad Config.standard code) := by
    rcases frontPad_eq Config.standard code with heq | heq <;> rw [heq] <;> decide
  exact (h.append (show Firm '\x7b' '%' Config.standard.targetOpen by decide)).append_shut hpad

/-- An opening delimiter that begins in code ends in it. -/
theorem isSuffix_of_code {code right more : Text}
    (h : ['\x7b', '%'] ++ right <:+
      code ++ (backPad Config.standard code ++ (Config.standard.targetClose ++ more))) :
    ['\x7b', '%'] ++ right <:+ more ∨
      ∃ inside, right = inside ++ (backPad Config.standard code ++
        (Config.standard.targetClose ++ more)) ∧ ['\x7b', '%'] ++ inside <:+ code := by
  have hpad := backPad_standard code
  rcases pair_isSuffix_append h with hbehind | hinside | ⟨hlast, hhead⟩
  · left
    have hclose : Shut '\x7b' '%' (backPad Config.standard code) := by
      rcases backPad_eq Config.standard code with heq | heq <;> rw [heq] <;> decide
    have hrest := hclose.isSuffix_of_append hbehind
    exact (show Shut '\x7b' '%' Config.standard.targetClose by decide).isSuffix_of_append hrest
  · exact Or.inr hinside
  · -- Code that ends with the brace is followed by a space.
    rw [hpad, if_pos hlast] at hhead
    cases hhead

/-- In a compiled template whose literal text has no opening delimiter, each one stands in
the code of a tag. -/
theorem isSuffix_code_of_splice {segments : Segments}
    (hplain : ∀ literal ∈ segments.literals, Apart '\x7b' '%' literal) {right : Text}
    (h : ['\x7b', '%'] ++ right <:+ segments.splice standard.wrapTag) :
    ∃ part others inside, part :: others <:+ segments.tags ∧
      ['\x7b', '%'] ++ inside <:+ standard.compileTag part.2.body ∧
      right = inside ++ standard.behindCode part.2 ⟨others, segments.rest⟩ := by
  obtain ⟨tags, rest⟩ := segments
  induction tags with
  | nil =>
      have hrest := hplain rest (by simp [Segments.literals])
      have hinside : ['\x7b', '%'] ++ right <:+ rest := h
      exact absurd ((List.infix_append_left).trans hinside.isInfix) (apart_iff.1 hrest)
  | cons part tags ih =>
      have hliteral := hplain part.1 (Segments.mem_literals_of_mem_tags List.mem_cons_self)
      rw [splice_eq_behindCode] at h
      have hcode := (shut_front hliteral).isSuffix_of_append h
      rcases isSuffix_of_code hcode with hmore | ⟨inside, hright, hinside⟩
      · have hothers : ∀ literal ∈ Segments.literals ⟨tags, rest⟩, Apart '\x7b' '%' literal :=
          fun literal hmem => hplain literal (List.mem_cons_of_mem _ hmem)
        obtain ⟨part', others, inside, hsuffix, hinside, hright⟩ := ih hothers hmore
        exact ⟨part', others, inside, hsuffix.trans (List.suffix_cons _ _), hinside, hright⟩
      · exact ⟨part, tags, inside, List.suffix_refl _, hinside, hright⟩

theorem behindCode_isSuffix_splice {segments : Segments} {part : Text × Tag}
    {others : List (Text × Tag)} (h : part :: others <:+ segments.tags) :
    standard.compileTag part.2.body ++ standard.behindCode part.2 ⟨others, segments.rest⟩ <:+
      segments.splice standard.wrapTag := by
  obtain ⟨front, heq⟩ := h
  have hsplit : segments.splice standard.wrapTag =
      Segments.splice standard.wrapTag ⟨front, []⟩ ++
        Segments.splice standard.wrapTag ⟨part :: others, segments.rest⟩ := by
    unfold Segments.splice
    rw [← heq, List.flatMap_append, List.append_nil, List.append_assoc]
  rw [hsplit, splice_eq_behindCode, ← List.append_assoc]
  exact List.suffix_append _ _

/-! ## Recompiling -/

/-- No opening delimiter in the code of a tag can be read as a tag, with whatever follows
the code. -/
def NoneReadable (segments : Segments) : Prop :=
  ∀ part others inside, part :: others <:+ segments.tags →
    Config.standard.sourceOpen ++ inside <:+ standard.compileTag part.2.body →
    Tag.read? standard.sourceDelimiters (Config.standard.sourceOpen ++ inside ++
      standard.behindCode part.2 ⟨others, segments.rest⟩) = none

theorem compile_compile_eq_iff {source : Text}
    (hplain : ∀ literal ∈ (standard.segments source).literals, Apart '\x7b' '%' literal) :
    standard.compile (standard.compile source) = standard.compile source ↔
      NoneReadable (standard.segments source) := by
  rw [compile_eq_self_iff, scan, Segments.tags_ofText_eq_nil_iff]
  constructor
  · intro hnone part others inside hpart hinside
    apply hnone
    obtain ⟨front, hfront⟩ := hinside
    have hbehind := behindCode_isSuffix_splice hpart
    rw [← hfront, List.append_assoc] at hbehind
    exact (List.suffix_append _ _).trans hbehind
  · intro hnone back hback
    rw [Option.eq_none_iff_forall_ne_some]
    rintro ⟨tag, rest⟩ hread
    have htext := Tag.eq_of_read? hread
    have hopening : back =
        ['\x7b', '%'] ++ (tag.inner ++ standard.sourceDelimiters.closing ++ rest) := by
      rw [htext, Tag.source, opening_standard]
      simp
    rw [hopening] at hback
    obtain ⟨part, others, inside, hpart, hinside, hright⟩ := isSuffix_code_of_splice hplain hback
    have hthere := hnone part others inside hpart hinside
    rw [hopening, hright, ← List.append_assoc] at hread
    change Tag.read? _ (['\x7b', '%'] ++ inside ++ _) = none at hthere
    rw [hthere] at hread
    cases hread

/-- An opening delimiter with dollar signs between its characters. -/
def SplitByDollars (body : Text) : Prop :=
  ∃ count, '\x7b' :: (List.replicate (count + 1) '$' ++ ['%']) <:+: body

/-- The tag has a call in its code that completes an opening delimiter. -/
def HasJoinedCall (reading : Reading) : Prop :=
  ∃ compiled ∈ reading.kind.compiled? reading.expression, Expression.JoinsCall compiled

theorem opening_isInfix_compileTag_iff {body : Text}
    (hplain : ¬ Config.standard.sourceOpen <:+: body) (hdollars : ¬ SplitByDollars body) :
    Config.standard.sourceOpen <:+: standard.compileTag body ↔
      HasJoinedCall (standard.classify body) := by
  have hdrop : Apart '\x7b' '%' (Sigil.dropDollars body) := by
    rw [apart_iff]
    intro hmem
    obtain ⟨count, hcount⟩ := exists_replicate_of_filter hmem
    cases count with
    | zero => exact hplain hcount
    | succ count => exact hdollars ⟨count, hcount⟩
  have hiff := Reading.apart_fragment_iff (show Shut '\x7b' '%' ('.' :: Config.standard.metaMark) by
    decide) (show '$' ∉ Config.standard.metaMark by decide) hdrop
  rw [apart_iff, ← not_iff_not, not_not] at hiff
  rw [HasJoinedCall, compileTag]
  refine Iff.trans hiff ?_
  push Not
  rfl

/-- Recompiling is a no-op exactly if no opening delimiter that the code of a tag assembles
can be read as a tag.  Where no dollar signs are dropped from inside a delimiter, only a
call that starts with its operand assembles one. -/
theorem recompile_noop_iff (source : Text)
    (hplain : ∀ text ∈ (standard.segments source).literals ++ (standard.segments source).bodies,
      ¬ Config.standard.sourceOpen <:+: text) :
    (standard.compile (standard.compile source) = standard.compile source ↔
      NoneReadable (standard.segments source)) ∧
    ∀ body ∈ (standard.segments source).bodies, ¬ SplitByDollars body →
      (Config.standard.sourceOpen <:+: standard.compileTag body ↔
        HasJoinedCall (standard.classify body)) := by
  constructor
  · apply compile_compile_eq_iff
    intro literal hliteral
    exact apart_iff.2 (hplain literal (List.mem_append_left _ hliteral))
  · intro body hbody hdollars
    exact opening_isInfix_compileTag_iff (hplain body (List.mem_append_right _ hbody)) hdollars

/-- A call behind an opening brace makes a tag of the compiled template. -/
theorem recompile_changes_joined_call :
    standard.compile (standard.compile "\x7b% \x7bcount(%x) %\x7d%\x7d".toList) ≠
      standard.compile "\x7b% \x7bcount(%x) %\x7d%\x7d".toList := by
  intro hsame
  have hnone := (recompile_noop_iff "\x7b% \x7bcount(%x) %\x7d%\x7d".toList
    (by decide +kernel)).1.1 hsame ([], ⟨" \x7bcount(%x) ".toList⟩) []
    "x.length).stringify()".toList (by decide +kernel) (by decide +kernel)
  exact absurd hnone (by decide +kernel)

/-- So does a dollar sign inside an opening delimiter. -/
theorem recompile_changes_split_delimiter :
    (∀ text ∈ (standard.segments "\x7b% \x7b$%x %\x7d%\x7d".toList).literals ++
        (standard.segments "\x7b% \x7b$%x %\x7d%\x7d".toList).bodies,
      ¬ Config.standard.sourceOpen <:+: text) ∧
    standard.compile (standard.compile "\x7b% \x7b$%x %\x7d%\x7d".toList) ≠
      standard.compile "\x7b% \x7b$%x %\x7d%\x7d".toList := by
  decide +kernel

/-- Where no tag assembles an opening delimiter, recompiling is a no-op. -/
theorem compile_compile_of_clean {source : Text}
    (hplain : ∀ text ∈ (standard.segments source).literals ++ (standard.segments source).bodies,
      ¬ Config.standard.sourceOpen <:+: text)
    (hbodies : ∀ body ∈ (standard.segments source).bodies,
      ¬ SplitByDollars body ∧ ¬ HasJoinedCall (standard.classify body)) :
    standard.compile (standard.compile source) = standard.compile source := by
  have hliterals : ∀ literal ∈ (standard.segments source).literals, Apart '\x7b' '%' literal :=
    fun literal hliteral => apart_iff.2 (hplain literal (List.mem_append_left _ hliteral))
  rw [compile_compile_eq_iff hliterals]
  intro part others inside hpart hinside
  have hmem : part.2.body ∈ (standard.segments source).bodies :=
    Segments.mem_bodies_of_mem_tags (hpart.subset List.mem_cons_self)
  obtain ⟨hdollars, hjoined⟩ := hbodies _ hmem
  have hcode := opening_isInfix_compileTag_iff (hplain _ (List.mem_append_right _ hmem)) hdollars
  exact absurd (hcode.1 ((List.infix_append_left).trans hinside.isInfix)) hjoined

end TagTemplate.Compiler
