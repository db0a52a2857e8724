import TagTemplate.Proofs.Text.Cuts
import TagTemplate.Proofs.Text.LiteralParts
import TagTemplate.Proofs.Text.Quoting

/-!
# Places of cuts

Cuts outside literals are made on marks that are read character by character, and literals are
taken whole.  Both readings agree: a text is cut at the separators that stand in no literal, and
at no others (`cuts_outside_quotedRanges`).
-/

namespace TagTemplate.Text

/-! ## Seams -/

/-- Between two of the parts the separator comes to stand at the offset, if they are put
together with it. -/
def IsSeam (separator : Char) (parts : List Text) (offset : Nat) : Prop :=
  ∃ front back, front ≠ [] ∧ back ≠ [] ∧ parts = front ++ back ∧
    byteSize (List.intercalate [separator] front) = offset

/-- The pieces are the parts of the text between the separators at the places, without the
blanks around them. -/
def CutAt (separator : Char) (places : Nat → Prop) (text : Text) (pieces : Text × List Text) :
    Prop :=
  ∃ parts, List.intercalate [separator] parts = text ∧
    (∀ offset, IsSeam separator parts offset ↔ places offset) ∧
    pieces.1 :: pieces.2 = parts.map trim

variable {separator : Char} {offset : Nat}

theorem not_isSeam_singleton (part : Text) : ¬ IsSeam separator [part] offset := by
  rintro ⟨front, back, hfront, hback, heq, -⟩
  rcases List.append_eq_singleton_iff.1 heq.symm with ⟨rfl, -⟩ | ⟨-, rfl⟩
  · exact hfront rfl
  · exact hback rfl

theorem isSeam_nil_cons_iff {part : Text} {parts : List Text} :
    IsSeam separator ([] :: part :: parts) offset ↔ offset = 0 ∨
      ∃ rest, IsSeam separator (part :: parts) rest ∧ offset = separator.utf8Size + rest := by
  constructor
  · rintro ⟨front, back, hfront, hback, heq, rfl⟩
    obtain ⟨first, front, rfl⟩ := List.exists_cons_of_ne_nil hfront
    obtain ⟨rfl, hparts⟩ := List.cons.inj heq
    cases front with
    | nil => exact .inl rfl
    | cons second front =>
        refine .inr ⟨_, ⟨second :: front, back, List.cons_ne_nil _ _, hback, hparts, rfl⟩, ?_⟩
        rw [List.intercalate_cons_cons]
        rfl
  · rintro (rfl | ⟨_, ⟨front, back, hfront, hback, heq, rfl⟩, rfl⟩)
    · exact ⟨[[]], part :: parts, List.cons_ne_nil _ _, List.cons_ne_nil _ _, rfl, rfl⟩
    · obtain ⟨second, front, rfl⟩ := List.exists_cons_of_ne_nil hfront
      refine ⟨[] :: second :: front, back, List.cons_ne_nil _ _, hback, by rw [heq]; rfl, ?_⟩
      rw [List.intercalate_cons_cons]
      rfl

theorem intercalate_cons (c : Char) (part : Text) (parts : List Text) :
    List.intercalate [separator] ((c :: part) :: parts) =
      c :: List.intercalate [separator] (part :: parts) := by
  cases parts with
  | nil => rw [List.intercalate_singleton, List.intercalate_singleton]
  | cons next parts => rw [List.intercalate_cons_cons, List.intercalate_cons_cons]; rfl

theorem isSeam_cons_iff {c : Char} {part : Text} {parts : List Text} :
    IsSeam separator ((c :: part) :: parts) offset ↔
      ∃ rest, IsSeam separator (part :: parts) rest ∧ offset = c.utf8Size + rest := by
  constructor
  · rintro ⟨front, back, hfront, hback, heq, rfl⟩
    obtain ⟨first, front, rfl⟩ := List.exists_cons_of_ne_nil hfront
    obtain ⟨rfl, rfl⟩ := List.cons.inj heq
    exact ⟨_, ⟨part :: front, back, List.cons_ne_nil _ _, hback, rfl, rfl⟩,
      by rw [intercalate_cons, byteSize_cons]⟩
  · rintro ⟨_, ⟨front, back, hfront, hback, heq, rfl⟩, rfl⟩
    obtain ⟨first, front, rfl⟩ := List.exists_cons_of_ne_nil hfront
    obtain ⟨rfl, rfl⟩ := List.cons.inj heq
    exact ⟨(c :: part) :: front, back, List.cons_ne_nil _ _, hback, rfl,
      by rw [intercalate_cons, byteSize_cons]⟩

/-! ## Cuts of marked text -/

def CutPlace (isCut : Option Glyph → Glyph → Option Glyph → Bool) (before : Option Glyph)
    (glyphs : List Glyph) (offset : Nat) : Prop :=
  ∃ front glyph back, glyphs = front ++ glyph :: back ∧
    isCut (front.getLast?.or before) glyph back.head? = true ∧
    byteSize (ofGlyphs front) = offset

variable {isCut : Option Glyph → Glyph → Option Glyph → Bool} {before : Option Glyph}

theorem cutPlace_cons_iff {glyph : Glyph} {rest : List Glyph} :
    CutPlace isCut before (glyph :: rest) offset ↔
      (isCut before glyph rest.head? = true ∧ offset = 0) ∨
        ∃ place, CutPlace isCut (some glyph) rest place ∧
          offset = glyph.char.utf8Size + place := by
  constructor
  · rintro ⟨front, other, back, heq, hcut, rfl⟩
    cases front with
    | nil =>
        obtain ⟨rfl, rfl⟩ := List.cons.inj heq
        exact .inl ⟨hcut, rfl⟩
    | cons first front =>
        obtain ⟨rfl, rfl⟩ := List.cons.inj heq
        rw [getLast?_cons_or] at hcut
        exact .inr ⟨_, ⟨front, other, back, rfl, hcut, rfl⟩, rfl⟩
  · rintro (⟨hcut, rfl⟩ | ⟨_, ⟨front, other, back, rfl, hcut, rfl⟩, rfl⟩)
    · exact ⟨[], glyph, rest, rfl, hcut, rfl⟩
    · rw [← getLast?_cons_or glyph front before] at hcut
      exact ⟨glyph :: front, other, back, rfl, hcut, rfl⟩

theorem intercalate_cutWhere
    (hseparator : ∀ before glyph next, isCut before glyph next = true → glyph.char = separator)
    (before : Option Glyph) (glyphs : List Glyph) :
    List.intercalate [separator]
        (ofGlyphs (cutWhere isCut before glyphs).1 ::
          (cutWhere isCut before glyphs).2.map ofGlyphs) = ofGlyphs glyphs := by
  induction glyphs generalizing before with
  | nil => rfl
  | cons glyph rest ih =>
      simp only [cutWhere]
      by_cases hcut : isCut before glyph rest.head? = true
      · rw [if_pos hcut, List.map_cons, List.intercalate_cons_cons, ih, ← hseparator _ _ _ hcut]
        rfl
      · rw [if_neg hcut, ofGlyphs_cons, intercalate_cons, ih]
        rfl

theorem isSeam_cutWhere_iff
    (hseparator : ∀ before glyph next, isCut before glyph next = true → glyph.char = separator)
    (before : Option Glyph) (glyphs : List Glyph) (offset : Nat) :
    IsSeam separator (ofGlyphs (cutWhere isCut before glyphs).1 ::
        (cutWhere isCut before glyphs).2.map ofGlyphs) offset ↔
      CutPlace isCut before glyphs offset := by
  induction glyphs generalizing before offset with
  | nil =>
      refine iff_of_false (not_isSeam_singleton _) ?_
      rintro ⟨front, glyph, back, heq, -⟩
      exact List.append_ne_nil_of_right_ne_nil front (List.cons_ne_nil glyph back) heq.symm
  | cons glyph rest ih =>
      rw [cutPlace_cons_iff]
      simp only [cutWhere]
      by_cases hcut : isCut before glyph rest.head? = true
      · simp only [hcut, if_true, true_and, List.map_cons, ← ih (some glyph),
          ← hseparator _ _ _ hcut]
        exact isSeam_nil_cons_iff
      · simp only [hcut, if_false, false_and, false_or, Bool.false_eq_true, ← ih (some glyph)]
        exact isSeam_cons_iff

theorem cutAt_trimParts
    (hseparator : ∀ before glyph next, isCut before glyph next = true → glyph.char = separator)
    (text : Text) :
    CutAt separator (CutPlace isCut none (marks text)) text
      (trimParts (cutWhere isCut none (marks text))) := by
  refine ⟨_, ?_, isSeam_cutWhere_iff hseparator none (marks text), ?_⟩
  · rw [intercalate_cutWhere hseparator, ofGlyphs_marks]
  · rw [trimParts, List.map_cons, List.map_map]
    rfl

/-! ## Separators outside literals -/

theorem CutAt.congr {places places' : Nat → Prop} {text : Text} {pieces : Text × List Text}
    (h : CutAt separator places text pieces) (hplaces : ∀ offset, places offset ↔ places' offset) :
    CutAt separator places' text pieces := by
  obtain ⟨parts, htext, hseams, hpieces⟩ := h
  exact ⟨parts, htext, fun offset => (hseams offset).trans (hplaces offset), hpieces⟩

theorem cutAt_splitOutside (separator : Char) (text : Text) :
    CutAt separator (BareAt text separator) text (splitOutside separator text) := by
  have hseparator : ∀ (_ : Option Glyph) (glyph : Glyph) (_ : Option Glyph),
      glyph.isBare separator = true → glyph.char = separator :=
    fun _ _ _ hbare => congrArg Glyph.char (Glyph.isBare_iff.1 hbare)
  have hcut := cutAt_trimParts hseparator text
  refine hcut.congr fun offset => ?_
  rw [bareAt_iff]
  constructor
  · rintro ⟨front, glyph, back, hmarks, hbare, hoffset⟩
    rw [Glyph.isBare_iff.1 hbare] at hmarks
    exact ⟨front, back, hmarks, hoffset⟩
  · rintro ⟨front, back, hmarks, hoffset⟩
    exact ⟨front, _, back, hmarks, Glyph.isBare_iff.2 rfl, hoffset⟩

/-- A bar stands at the offset, outside literals and with no bar on either side. -/
def PipeAt (text : Text) (offset : Nat) : Prop :=
  BareAt text '|' offset ∧ ¬ StandsAt text (offset + 1) ['|'] ∧
    ∀ before, before + 1 = offset → ¬ StandsAt text before ['|']

/-- A bar takes one byte, so its neighbours can be told by their offsets. -/
theorem pipeAt_iff {text : Text} {front back : List Glyph}
    (h : marks text = front ++ ⟨'|', false⟩ :: back) :
    PipeAt text (byteSize (ofGlyphs front)) ↔
      (∀ other ∈ front.getLast?, other.char ≠ '|') ∧ ∀ other ∈ back.head?, other.char ≠ '|' := by
  have htext : text = ofGlyphs front ++ '|' :: ofGlyphs back := by
    rw [← ofGlyphs_marks text, h, ofGlyphs_append, ofGlyphs_cons]
  have hbare : BareAt text '|' (byteSize (ofGlyphs front)) := bareAt_iff.2 ⟨front, back, h, rfl⟩
  have hnext : StandsAt text (byteSize (ofGlyphs front) + 1) ['|'] ↔
      ∃ other ∈ back.head?, other.char = '|' := by
    have hback : (ofGlyphs back).head? = back.head?.map Glyph.char := List.head?_map
    rw [htext]
    refine Iff.trans standsAt_next_iff ?_
    rw [hback, Option.map_eq_some_iff]
    exact Iff.rfl
  have hlast : (∃ before, before + 1 = byteSize (ofGlyphs front) ∧ StandsAt text before ['|']) ↔
      ∃ other ∈ front.getLast?, other.char = '|' := by
    have hfront : (ofGlyphs front).getLast? = front.getLast?.map Glyph.char := List.getLast?_map
    rw [htext]
    refine Iff.trans (@standsAt_last_iff _ _ '|') ?_
    rw [hfront, Option.map_eq_some_iff]
    exact Iff.rfl
  have hbefore : (∀ before, before + 1 = byteSize (ofGlyphs front) →
      ¬ StandsAt text before ['|']) ↔ ∀ other ∈ front.getLast?, other.char ≠ '|' := by
    simpa using not_congr hlast
  have hbehind : ¬ StandsAt text (byteSize (ofGlyphs front) + 1) ['|'] ↔
      ∀ other ∈ back.head?, other.char ≠ '|' := by
    simpa using not_congr hnext
  rw [PipeAt, hbefore, hbehind, and_iff_right hbare, and_comm]

theorem cutAt_splitPipes (text : Text) : CutAt '|' (PipeAt text) text (splitPipes text) := by
  have hseparator : ∀ before glyph next, isPipe before glyph next = true → glyph.char = '|' :=
    fun _ _ _ hpipe => congrArg Glyph.char (isPipe_iff.1 hpipe).1
  have hcut := cutAt_trimParts hseparator text
  refine hcut.congr fun offset => ?_
  constructor
  · rintro ⟨front, glyph, back, hmarks, hpipe, rfl⟩
    rw [Option.or_none, isPipe_iff] at hpipe
    obtain ⟨rfl, hsides⟩ := hpipe
    exact (pipeAt_iff hmarks).2 hsides
  · intro hpipe
    obtain ⟨front, back, hmarks, rfl⟩ := bareAt_iff.1 hpipe.1
    refine ⟨front, _, back, hmarks, ?_, rfl⟩
    rw [Option.or_none, isPipe_iff]
    exact ⟨rfl, (pipeAt_iff hmarks).1 hpipe⟩

/-! ## The first blank outside literals -/

/-- A blank stands at the offset, outside literals. -/
def BlankAt (text : Text) (offset : Nat) : Prop :=
  ∃ c, isBlank c = true ∧ BareAt text c offset

theorem CutsAtBlank.blankAt {text head tail : Text} (h : CutsAtBlank text head tail)
    (htail : tail ≠ []) : BlankAt text (byteSize head) := by
  obtain ⟨hclosed, c, hc, hblank⟩ := h.blank htail
  obtain ⟨rest, hrest⟩ := List.head?_eq_some_iff.1 hc
  refine ⟨c, hblank, bareAt_iff.2 ⟨marks head, marks rest, ?_, by rw [ofGlyphs_marks]⟩⟩
  rw [h.eq, hrest, hclosed.marks_append]
  simp [marks, marksFrom, Mode.covers, Mode.next, isQuote_of_isBlank hblank]

theorem CutsAtBlank.le_of_blankAt {text head tail : Text} (h : CutsAtBlank text head tail)
    {place : Nat} (hplace : BlankAt text place) : tail ≠ [] ∧ byteSize head ≤ place := by
  obtain ⟨c, hc, hbare⟩ := hplace
  obtain ⟨front, back, hmarks, rfl⟩ := bareAt_iff.1 hbare
  have hhead : ⟨c, false⟩ ∉ marks head := fun hmem => by
    simpa [hc] using h.noBlank _ hmem
  by_cases htail : tail = []
  · have htext := h.eq
    rw [htail, List.append_nil] at htext
    rw [← htext, hmarks] at hhead
    exact absurd (List.mem_append_right front List.mem_cons_self) hhead
  · refine ⟨htail, ?_⟩
    rw [h.eq, (h.blank htail).1.marks_append] at hmarks
    -- The blank cannot stand in the head, so the head ends before it.
    rcases List.append_eq_append_iff.1 hmarks with ⟨between, hfront, -⟩ | ⟨between, hfront, hback⟩
    · rw [hfront, ofGlyphs_append, ofGlyphs_marks, byteSize_append]
      exact Nat.le_add_right _ _
    · cases between with
      | nil =>
          rw [List.append_nil] at hfront
          rw [← hfront, ofGlyphs_marks]
      | cons glyph between =>
          obtain ⟨rfl, -⟩ := List.cons.inj hback
          rw [hfront] at hhead
          exact absurd (List.mem_append_right front List.mem_cons_self) hhead

theorem isLeast_blankAt_iff {text : Text} {offset : Nat} :
    IsLeast {place | BlankAt text place} offset ↔
      (splitAtBlank text).2 ≠ [] ∧ offset = byteSize (splitAtBlank text).1 := by
  have hcuts := cutsAtBlank_splitAtBlank text
  constructor
  · rintro ⟨hplace, hleast⟩
    obtain ⟨htail, hle⟩ := hcuts.le_of_blankAt hplace
    exact ⟨htail, Nat.le_antisymm (hleast (hcuts.blankAt htail)) hle⟩
  · rintro ⟨htail, rfl⟩
    exact ⟨hcuts.blankAt htail, fun place hplace => (hcuts.le_of_blankAt hplace).2⟩

/-! ## All cuts of a text -/

/-- The ranges of the literals are told by what they are.  All cuts are made at what stands in
none of them, and a part that goes through none of them has them where the text has them. -/
theorem cuts_outside_quotedRanges (text : Text) :
    (∀ ranges, Quoting text ranges ↔ ranges = quotedRanges text) ∧
      (∀ separator, CutAt separator (BareAt text separator) text (splitOutside separator text)) ∧
      CutAt '|' (PipeAt text) text (splitPipes text) ∧
      ((splitAtBlank text).1 ++ (splitAtBlank text).2 = text ∧ ∀ offset,
        IsLeast {place | BlankAt text place} offset ↔
          (splitAtBlank text).2 ≠ [] ∧ offset = byteSize (splitAtBlank text).1) ∧
      ∀ front part back, text = front ++ part ++ back →
        (∀ range ∈ quotedRanges text,
          ¬ range.IsCutAt (byteSize front) ∧ ¬ range.IsCutAt (byteSize (front ++ part))) →
        (quotedRanges part).map (ByteRange.shift (byteSize front)) =
          (quotedRanges text).filter fun range =>
            byteSize front ≤ range.start ∧ range.stop ≤ byteSize (front ++ part) := by
  refine ⟨fun ranges => quoting_iff, fun separator => cutAt_splitOutside separator text,
    cutAt_splitPipes text,
    ⟨(cutsAtBlank_splitAtBlank text).eq.symm, fun offset => isLeast_blankAt_iff⟩, ?_⟩
  rintro front part back rfl hcut
  exact quotedRanges_part (fun range hrange => (hcut range hrange).1)
    fun range hrange => (hcut range hrange).2

/-- The arguments of a call have their literals where the text has them: a quote of the other
kind, a quote behind a backslash and a literal that is not closed lie around them. -/
theorem cuts_outside_quotedRanges_of_call :
    let text := "join('it\\'s', \"a'b\") | 'c".toList
    let front := "join(".toList
    let part := "'it\\'s', \"a'b\"".toList
    let back := ") | 'c".toList
    text = front ++ part ++ back ∧
      (∀ range ∈ quotedRanges text,
        ¬ range.IsCutAt (byteSize front) ∧ ¬ range.IsCutAt (byteSize (front ++ part))) ∧
      quotedRanges text = [⟨5, 12⟩, ⟨14, 19⟩, ⟨23, 25⟩] ∧
      (quotedRanges part).map (ByteRange.shift (byteSize front)) = [⟨5, 12⟩, ⟨14, 19⟩] := by
  intro text front part back
  have htext : text = front ++ part ++ back := by decide
  have hranges : quotedRanges text = [⟨5, 12⟩, ⟨14, 19⟩, ⟨23, 25⟩] := by decide +kernel
  have hcut : ∀ range ∈ quotedRanges text,
      ¬ range.IsCutAt (byteSize front) ∧ ¬ range.IsCutAt (byteSize (front ++ part)) := by
    rw [hranges]
    decide
  refine ⟨htext, hcut, hranges, ?_⟩
  rw [(cuts_outside_quotedRanges text).2.2.2.2 front part back htext hcut, hranges]
  decide

end TagTemplate.Text
