import TagTemplate.Proofs.Template.Output
import TagTemplate.Proofs.Template.Strip
import TagTemplate.Proofs.Text.Occurrences

/-!
# The strip blocks of a text

The tags of strip blocks have the first character of the opening delimiter only at their
start, so two of them never overlap.  A text therefore falls apart in one way only into strip
blocks, text in front of each of them that starts no block, and text behind the last one
(`StripBlock.Parted`); the pass takes away the tags of these blocks and nothing else
(`Compiler.stripBlocks_exact`).
-/

namespace TagTemplate

open Text

namespace StripBlock

variable {delimiters : Delimiters} {word tag text rest : Text}

/-- The tag that ends a strip block. -/
def IsCloser (delimiters : Delimiters) (tag : Text) : Prop :=
  WordTag delimiters "/strip".toList tag

/-! ## Tags of strip blocks -/

theorem startsSolid_starts : StartsSolid "strip".toList :=
  ⟨'s', _, rfl, by decide⟩

theorem startsSolid_ends : StartsSolid "/strip".toList :=
  ⟨'/', _, rfl, by decide⟩

/-- A tag with a word is read in one way. -/
theorem wordTags_append (hsolid : StartsSolid delimiters.closing) (hword : StartsSolid word)
    (htag : WordTag delimiters word tag) (rest : Text) :
    wordTags delimiters word (tag ++ rest) = [(tag, rest)] := by
  obtain ⟨left, right, hleft, hright, rfl⟩ := htag
  have hstay : ∀ text, trimStart (word ++ text) = word ++ text ∧
      (word ++ text).takeWhile isBlank = [] := by
    obtain ⟨c, tail, rfl, hc⟩ := hword
    intro text
    simp [trimStart, hc]
  have hopen : after? delimiters.opening
      (delimiters.opening ++ left ++ word ++ right ++ delimiters.closing ++ rest) =
        some (left ++ (word ++ (right ++ (delimiters.closing ++ rest)))) :=
    after?_eq_some_iff.2 (by simp)
  have hinside : trimStart (left ++ (word ++ (right ++ (delimiters.closing ++ rest)))) =
      word ++ (right ++ (delimiters.closing ++ rest)) := by
    rw [trimStart_append_of_allBlank hleft, (hstay _).1]
  have hblanks : (left ++ (word ++ (right ++ (delimiters.closing ++ rest)))).takeWhile isBlank =
      left := by
    rw [List.takeWhile_append_of_pos hleft, (hstay _).2, List.append_nil]
  simp only [wordTags, hopen, hinside, after?_append, hblanks, afterBlanks_append hsolid hright,
    List.map_cons, List.map_nil]

theorem wordTags_eq_nil_iff (hsolid : StartsSolid delimiters.closing) (hword : StartsSolid word) :
    wordTags delimiters word text = [] ↔ ∀ tag, WordTag delimiters word tag → ¬ tag <+: text := by
  rw [List.eq_nil_iff_forall_not_mem]
  constructor
  · rintro hnil tag htag ⟨rest, rfl⟩
    apply hnil (tag, rest)
    rw [wordTags_append hsolid hword htag]
    exact List.mem_singleton_self _
  · rintro hnone ⟨tag, rest⟩ hmem
    exact hnone tag (wordTag_of_mem_wordTags hmem) ⟨rest, (eq_of_mem_wordTags hmem).symm⟩

theorem lacks_wordTag_iff (hsolid : StartsSolid delimiters.closing) (hword : StartsSolid word) :
    Lacks (WordTag delimiters word) text ↔
      ∀ start ∈ text.tails, wordTags delimiters word start = [] := by
  simp only [wordTags_eq_nil_iff hsolid hword, List.mem_tails, Lacks]
  constructor
  · intro hlacks start hstart tag htag hbegin
    exact hlacks tag htag (hbegin.isInfix.trans hstart.isInfix)
  · intro hnone tag htag hin
    obtain ⟨start, hbegin, hstart⟩ := List.infix_iff_prefix_suffix.1 hin
    exact hnone start hstart tag htag hbegin

/-- The opening delimiter begins with a character that a tag of a strip block has nowhere else,
and the closing delimiter does not begin with a blank. -/
structure Marked (delimiters : Delimiters) (mark : Char) : Prop where
  opening_eq : delimiters.opening = mark :: delimiters.opening.tail
  not_mem : mark ∉ delimiters.opening.tail ++ "/strip".toList ++ delimiters.closing
  not_blank : isBlank mark = false
  closing : StartsSolid delimiters.closing

namespace Marked

variable {mark : Char} (h : Marked delimiters mark)

include h

theorem tag_eq (hword : word ⊆ "/strip".toList) (htag : WordTag delimiters word tag) :
    ∃ tail, tag = mark :: tail ∧ mark ∉ tail := by
  obtain ⟨inner, rfl, hinner⟩ := htag.exists_inner
  refine ⟨delimiters.opening.tail ++ inner ++ delimiters.closing, ?_, ?_⟩
  · conv_lhs => rw [h.opening_eq]
    rfl
  · have hmark := h.not_mem
    simp only [List.mem_append, not_or] at hmark ⊢
    refine ⟨⟨hmark.1.1, fun hmem => ?_⟩, hmark.2⟩
    rcases hinner mark hmem with hblank | hmem
    · rw [h.not_blank] at hblank
      cases hblank
    · exact hmark.1.2 (hword hmem)

theorem lacks_nil (hword : word ⊆ "/strip".toList) : Lacks (WordTag delimiters word) [] := by
  intro tag htag hin
  obtain ⟨tail, rfl, -⟩ := h.tag_eq hword htag
  exact absurd (List.infix_nil.1 hin) (List.cons_ne_nil _ _)

/-- Tags of strip blocks do not overlap. -/
theorem isPrefix_of_append {word' tag' start more : Text} (hword : word ⊆ "/strip".toList)
    (hword' : word' ⊆ "/strip".toList) (htag : WordTag delimiters word tag)
    (htag' : WordTag delimiters word' tag') (hne : start ≠ [])
    (hbegin : tag <+: start ++ (tag' ++ more)) : tag <+: start := by
  obtain ⟨tail, rfl, htail⟩ := h.tag_eq hword htag
  obtain ⟨tail', rfl, -⟩ := h.tag_eq hword' htag'
  obtain ⟨c, start, rfl⟩ := List.exists_cons_of_ne_nil hne
  obtain ⟨rfl, hinside⟩ := List.cons_prefix_cons.1 hbegin
  exact List.cons_prefix_cons.2 ⟨rfl, isPrefix_of_not_mem htail hinside⟩

/-! ## Reading a block -/

theorem openers_append (htag : IsOpener delimiters tag) (rest : Text) :
    openers delimiters (tag ++ rest) = [(tag, rest)] :=
  wordTags_append h.closing startsSolid_starts htag rest

theorem closers_append (htag : IsCloser delimiters tag) (rest : Text) :
    closers delimiters (tag ++ rest) = [(tag, rest)] :=
  wordTags_append h.closing startsSolid_ends htag rest

theorem head?_closers_eq_none_iff :
    (closers delimiters text).head? = none ↔ ∀ tag, IsCloser delimiters tag → ¬ tag <+: text :=
  List.head?_eq_none_iff.trans (wordTags_eq_nil_iff h.closing startsSolid_ends)

theorem toCloser?_eq_none_iff :
    toCloser? delimiters text = none ↔ Lacks (IsCloser delimiters) text := by
  induction text with
  | nil => exact iff_of_true rfl (h.lacks_nil (List.Subset.refl _))
  | cons c text ih =>
      rw [lacks_cons_iff, ← h.head?_closers_eq_none_iff, ← ih, toCloser?]
      cases hhead : (closers delimiters (c :: text)).head? with
      | some found => simp
      | none => simp

theorem lacks_of_toCloser? {content closer : Text}
    (hfound : toCloser? delimiters text = some (content, closer, rest)) :
    IsCloser delimiters closer ∧ Lacks (IsCloser delimiters) content := by
  induction text generalizing content with
  | nil => cases hfound
  | cons c text ih =>
      have htext := eq_of_toCloser? hfound
      rw [toCloser?] at hfound
      cases hhead : (closers delimiters (c :: text)).head? with
      | some found =>
          rw [hhead] at hfound
          cases hfound
          exact ⟨wordTag_of_mem_wordTags (List.mem_of_head? hhead),
            h.lacks_nil (List.Subset.refl _)⟩
      | none =>
          rw [hhead] at hfound
          obtain ⟨⟨content', closer', rest'⟩, hlater, heq⟩ := Option.map_eq_some_iff.1 hfound
          simp only [Prod.mk.injEq] at heq
          obtain ⟨rfl, rfl, rfl⟩ := heq
          obtain ⟨hcloser, hlacks⟩ := ih hlater
          refine ⟨hcloser, lacks_cons_iff.2 ⟨fun tag htag hbegin => ?_, hlacks⟩⟩
          refine h.head?_closers_eq_none_iff.1 hhead tag htag (hbegin.trans ?_)
          rw [htext, List.append_assoc]
          exact List.prefix_append _ _

theorem toCloser?_append {content closer : Text} (hcloser : IsCloser delimiters closer)
    (hcontent : Lacks (IsCloser delimiters) content) (rest : Text) :
    toCloser? delimiters (content ++ (closer ++ rest)) = some (content, closer, rest) := by
  induction content with
  | nil =>
      have hhead := congrArg List.head? (h.closers_append hcloser rest)
      obtain ⟨tail, rfl, -⟩ := h.tag_eq (List.Subset.refl _) hcloser
      rw [List.cons_append] at hhead
      rw [List.nil_append, List.cons_append, toCloser?, hhead]
      rfl
  | cons c content ih =>
      rw [lacks_cons_iff] at hcontent
      have hhead : (closers delimiters (c :: (content ++ (closer ++ rest)))).head? = none := by
        refine h.head?_closers_eq_none_iff.2 fun tag htag hbegin => hcontent.1 tag htag ?_
        exact h.isPrefix_of_append (List.Subset.refl _) (List.Subset.refl _) htag hcloser
          (List.cons_ne_nil c content) hbegin
      rw [List.cons_append, toCloser?, hhead, ih hcontent.2]
      rfl

end Marked

/-- A strip block, which ends with the first tag that can end it. -/
structure IsBlock (delimiters : Delimiters) (block : StripBlock) : Prop where
  opener : IsOpener delimiters block.opener
  closer : IsCloser delimiters block.closer
  content : Lacks (IsCloser delimiters) block.content

def source (block : StripBlock) : Text :=
  block.opener ++ block.content ++ block.closer

namespace Marked

variable {mark : Char} (h : Marked delimiters mark) {block : StripBlock}

include h

theorem isBlock_of_read? (hread : read? delimiters text = some (block, rest)) :
    IsBlock delimiters block := by
  have hopener := isOpener_of_read? hread
  obtain ⟨⟨opener, inside⟩, -, hfound⟩ := List.exists_of_findSome?_eq_some hread
  obtain ⟨⟨content, closer, rest'⟩, hcloser, heq⟩ := Option.map_eq_some_iff.1 hfound
  cases heq
  obtain ⟨hends, hlacks⟩ := h.lacks_of_toCloser? hcloser
  exact ⟨hopener, hends, hlacks⟩

theorem read?_opener_append {opener : Text} (hopener : IsOpener delimiters opener)
    (inside : Text) : read? delimiters (opener ++ inside) =
      (toCloser? delimiters inside).map fun (content, closer, rest) =>
        (⟨opener, content, closer⟩, rest) := by
  rw [read?, h.openers_append hopener, List.findSome?_singleton]

theorem read?_append (hblock : IsBlock delimiters block) (rest : Text) :
    read? delimiters (block.source ++ rest) = some (block, rest) := by
  have htext : block.source ++ rest =
      block.opener ++ (block.content ++ (block.closer ++ rest)) := by
    simp [source]
  rw [htext, h.read?_opener_append hblock.opener,
    h.toCloser?_append hblock.closer hblock.content]
  rfl

theorem lacks_of_read?_eq_none {opener inside : Text} (hopener : IsOpener delimiters opener)
    (hread : read? delimiters (opener ++ inside) = none) : Lacks (IsCloser delimiters) inside := by
  rw [h.read?_opener_append hopener, Option.map_eq_none_iff] at hread
  exact h.toCloser?_eq_none_iff.1 hread

end Marked

/-! ## All blocks of a text -/

/-- A text in parts: its strip blocks, each with the text in front of it, which starts no
block, and the text behind the last one, where every block that starts goes on to the end. -/
structure Parted (delimiters : Delimiters) (text : Text) (blocks : List (Text × StripBlock))
    (last : Text) : Prop where
  text_eq : text = (blocks.flatMap fun (before, block) => before ++ block.source) ++ last
  isBlock : ∀ part ∈ blocks, IsBlock delimiters part.2
  before : ∀ part ∈ blocks, Lacks (IsOpener delimiters) part.1
  last : ∀ front opener inside, IsOpener delimiters opener → last = front ++ (opener ++ inside) →
    Lacks (IsCloser delimiters) inside

variable {mark : Char} {blocks : List (Text × StripBlock)} {last : Text}

theorem Parted.nil (hmark : Marked delimiters mark) : Parted delimiters [] [] [] := by
  refine ⟨rfl, by simp, by simp, fun front opener inside hopener heq => ?_⟩
  obtain ⟨tail, rfl, -⟩ := hmark.tag_eq (by decide) hopener
  cases (List.append_eq_nil_iff.1 heq.symm).2

/-- No block begins in text that holds no whole start of one, if the start of a block follows. -/
theorem Marked.read?_eq_none_of_lacks (hmark : Marked delimiters mark) {front more : Text}
    {block : StripBlock} (hblock : IsBlock delimiters block)
    (hfront : Lacks (IsOpener delimiters) front) {start : Text} (hstart : start <:+ front)
    (hne : start ≠ []) : read? delimiters (start ++ (block.source ++ more)) = none := by
  apply read?_eq_none_of_no_opener
  intro tag htag hbegin
  have hopener : block.source ++ more =
      block.opener ++ (block.content ++ (block.closer ++ more)) := by
    simp [source]
  rw [hopener] at hbegin
  have hinside := hmark.isPrefix_of_append (by decide) (by decide) htag hblock.opener hne hbegin
  exact hfront tag htag (hinside.isInfix.trans hstart.isInfix)

theorem Parted.split_eq (hmark : Marked delimiters mark) (h : Parted delimiters text blocks last) :
    split delimiters text = (blocks, last) := by
  induction blocks generalizing text with
  | nil =>
      obtain rfl : text = last := h.text_eq
      have hnone : ∀ start, start <:+ text → start ≠ [] →
          read? delimiters (start ++ []) = none := by
        rintro start ⟨front, rfl⟩ -
        rw [List.append_nil, Option.eq_none_iff_forall_ne_some]
        rintro ⟨block, rest⟩ hread
        have hblock := hmark.isBlock_of_read? hread
        have hstart : start = block.opener ++ (block.content ++ (block.closer ++ rest)) := by
          rw [eq_of_read? hread]
          simp
        have hlacks := h.last front _ _ hblock.opener (congrArg (front ++ ·) hstart)
        exact hlacks _ hblock.closer ⟨block.content, rest, by simp⟩
      have hsplit := split_append hnone
      rw [List.append_nil, split] at hsplit
      simpa using hsplit
  | cons part others ih =>
      obtain ⟨before, block⟩ := part
      obtain ⟨hblock, hblocks⟩ := List.forall_mem_cons.1 h.isBlock
      obtain ⟨hbefore, hbefores⟩ := List.forall_mem_cons.1 h.before
      have hmore := ih ⟨rfl, hblocks, hbefores, h.last⟩
      have htext : text = before ++ (block.source ++
          ((others.flatMap fun (before, block) => before ++ block.source) ++ last)) := by
        rw [h.text_eq]
        simp
      rw [htext, split_append fun start hstart hne =>
          hmark.read?_eq_none_of_lacks hblock hbefore hstart hne,
        split_of_read? (hmark.read?_append hblock _), hmore]
      simp

theorem parted_split (hmark : Marked delimiters mark) (text : Text) :
    Parted delimiters text (split delimiters text).1 (split delimiters text).2 := by
  induction text using split.induct delimiters with
  | case1 =>
      rw [split]
      exact Parted.nil hmark
  | case2 c text block rest hread hlength blocks last hsplit ih =>
      have hblock := hmark.isBlock_of_read? hread
      rw [split_of_read? hread]
      refine ⟨?_, List.forall_mem_cons.2 ⟨hblock, ih.isBlock⟩,
        List.forall_mem_cons.2 ⟨hmark.lacks_nil (by decide), ih.before⟩, ih.last⟩
      rw [eq_of_read? hread]
      conv_lhs => rw [ih.text_eq]
      simp [source]
  | case3 c text hnone last hsplit ih =>
      rw [hsplit] at ih
      rw [split_of_read?_eq_none hnone, hsplit]
      obtain rfl : text = last := ih.text_eq
      refine ⟨rfl, by simp, by simp, fun front opener inside hopener heq => ?_⟩
      change c :: text = front ++ (opener ++ inside) at heq
      cases front with
      | nil =>
          rw [heq] at hnone
          exact hmark.lacks_of_read?_eq_none hopener hnone
      | cons d front => exact ih.last front opener inside hopener (List.cons.inj heq).2
  | case4 c text hnone before block blocks last hsplit ih =>
      rw [hsplit] at ih
      rw [split_of_read?_eq_none hnone, hsplit]
      obtain ⟨hblock, hblocks⟩ := List.forall_mem_cons.1 ih.isBlock
      obtain ⟨hbefore, hbefores⟩ := List.forall_mem_cons.1 ih.before
      have htext := congrArg (c :: ·) ih.text_eq
      refine ⟨by simpa using htext, List.forall_mem_cons.2 ⟨hblock, hblocks⟩,
        List.forall_mem_cons.2 ⟨lacks_cons_iff.2 ⟨fun tag htag hbegin => ?_, hbefore⟩, hbefores⟩,
        ih.last⟩
      -- A start of a block here would find the end of the next block.
      obtain ⟨behind, hbehind⟩ := hbegin
      have hthere : c :: text = tag ++ (behind ++ (block.source ++
          ((blocks.flatMap fun (before, block) => before ++ block.source) ++ last))) := by
        rw [← List.append_assoc, hbehind]
        simpa using htext
      rw [hthere] at hnone
      refine hmark.lacks_of_read?_eq_none htag hnone _ hblock.closer ?_
      exact ⟨behind ++ block.opener ++ block.content, _, by simp [source]; rfl⟩

end StripBlock

namespace Compiler

open StripBlock

theorem marked_standard : Marked standard.sourceDelimiters '\x7b' :=
  ⟨rfl, by decide, by decide, startsSolid_standard⟩

/-- A template falls apart in one way only into its strip blocks and the text around them, and
what is left of it without the tags of these blocks compiles to the same, unless it starts a
strip block anew. -/
theorem stripBlocks_exact (source : Text) :
    (∃! parts : List (Text × StripBlock) × Text,
      Parted standard.sourceDelimiters source parts.1 parts.2) ∧
    (∀ blocks last, Parted standard.sourceDelimiters source blocks last →
      standard.stripBlocks source =
        (blocks.flatMap fun (before, block) => before ++ block.content) ++ last) ∧
    (Lacks (IsOpener standard.sourceDelimiters) (standard.stripBlocks source) →
      standard.compile source = standard.compile (standard.stripBlocks source)) := by
  refine ⟨⟨_, parted_split marked_standard source, fun parts h => ?_⟩, fun blocks last h => ?_,
    fun hlacks => ?_⟩
  · exact (h.split_eq marked_standard).symm
  · rw [stripBlocks, unwrap, h.split_eq marked_standard]
  · have hself : standard.stripBlocks (standard.stripBlocks source) =
        standard.stripBlocks source := unwrap_eq_self_of_lacks hlacks
    rw [compile, compile, hself]

/-- The content ends like the start of a block that the text behind would complete, and that
text ends with a tag that ends no block. -/
theorem stripBlocks_exact_of_broken_start :
    let source := "a\x7b% strip %\x7dx\n\x7b% strip\x7b%/strip%\x7d %b\x7b% /strip %\x7d".toList
    let block : StripBlock :=
      ⟨"\x7b% strip %\x7d".toList, "x\n\x7b% strip".toList, "\x7b%/strip%\x7d".toList⟩
    let result := "ax\n\x7b% strip %b\x7b% /strip %\x7d".toList
    Parted standard.sourceDelimiters source [("a".toList, block)] " %b\x7b% /strip %\x7d".toList ∧
      Lacks (IsOpener standard.sourceDelimiters) result ∧
      standard.stripBlocks source = result ∧
      standard.compile source = standard.compile result := by
  intro source block result
  have hsplit : split standard.sourceDelimiters source =
      ([("a".toList, block)], " %b\x7b% /strip %\x7d".toList) := by
    decide +kernel
  have hparted := parted_split marked_standard source
  rw [hsplit] at hparted
  have hlacks : Lacks (IsOpener standard.sourceDelimiters) result :=
    (lacks_wordTag_iff startsSolid_standard startsSolid_starts).2 (by decide +kernel)
  obtain ⟨-, hstrip, hcompile⟩ := stripBlocks_exact source
  have hresult : standard.stripBlocks source = result := hstrip _ _ hparted
  rw [hresult] at hcompile
  exact ⟨hparted, hlacks, hresult, hcompile hlacks⟩

end Compiler

end TagTemplate
