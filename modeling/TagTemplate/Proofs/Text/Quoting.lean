import TagTemplate.Proofs.Text.Literals

/-!
# What is quoted

The characters in the ranges of the literals are those that `marks` covers (`agree_marks`), so
to stand outside literals is to stand in none of the ranges (`bareAt_iff`).  The ranges are told
by what they are (`quoting_iff`): literals one behind the other that hold all quotes.
-/

namespace TagTemplate.Text

/-! ## Marks and ranges -/

theorem exists_holds_shift_iff {ranges : List ByteRange} {size offset : Nat} :
    (∃ range ∈ ranges.map (ByteRange.shift size), range.Holds (size + offset)) ↔
      ∃ range ∈ ranges, range.Holds offset := by
  constructor
  · rintro ⟨_, hmem, hholds⟩
    obtain ⟨range, hrange, rfl⟩ := List.mem_map.1 hmem
    exact ⟨range, hrange, ByteRange.holds_shift_iff.1 hholds⟩
  · rintro ⟨range, hrange, hholds⟩
    exact ⟨_, List.mem_map_of_mem hrange, ByteRange.holds_shift_iff.2 hholds⟩

/-- The characters that are marked as quoted are those in the ranges. -/
def Agree (glyphs : List Glyph) (ranges : List ByteRange) : Prop :=
  ∀ front glyph back, glyphs = front ++ glyph :: back →
    (glyph.quoted = true ↔ ∃ range ∈ ranges, range.Holds (byteSize (ofGlyphs front)))

theorem Agree.cons_bare {glyphs : List Glyph} {ranges : List ByteRange}
    (h : Agree glyphs ranges) (c : Char) :
    Agree (⟨c, false⟩ :: glyphs) (ranges.map (ByteRange.shift (byteSize [c]))) := by
  intro front glyph back heq
  cases front with
  | nil =>
      obtain ⟨rfl, -⟩ := List.cons.inj heq
      refine iff_of_false Bool.false_ne_true ?_
      rintro ⟨_, hmem, hstart, -⟩
      obtain ⟨range, -, rfl⟩ := List.mem_map.1 hmem
      have hpos := c.utf8Size_pos
      simp only [ByteRange.shift, byteSize, ofGlyphs, List.map_nil] at hstart
      omega
  | cons first front =>
      obtain ⟨rfl, hrest⟩ := List.cons.inj heq
      have hsize : byteSize (ofGlyphs (⟨c, false⟩ :: front)) =
          byteSize [c] + byteSize (ofGlyphs front) := rfl
      rw [hsize, exists_holds_shift_iff]
      exact h front glyph back hrest

theorem byteSize_quotedGlyphs_append (literal : Text) (glyphs : List Glyph) :
    byteSize (ofGlyphs (quotedGlyphs literal ++ glyphs)) =
      byteSize literal + byteSize (ofGlyphs glyphs) := by
  have hliteral : ofGlyphs (quotedGlyphs literal) = literal := by
    rw [ofGlyphs, quotedGlyphs, List.map_map]
    exact List.map_id' _
  rw [ofGlyphs_append, byteSize_append, hliteral]

theorem Agree.append_literal {glyphs : List Glyph} {ranges : List ByteRange}
    (h : Agree glyphs ranges) (literal : Text) :
    Agree (quotedGlyphs literal ++ glyphs)
      (⟨0, byteSize literal⟩ :: ranges.map (ByteRange.shift (byteSize literal))) := by
  intro front glyph back heq
  rw [List.exists_mem_cons_iff]
  have hbehind : ∀ between, glyphs = between ++ glyph :: back →
      front = quotedGlyphs literal ++ between →
      (glyph.quoted = true ↔ ByteRange.Holds ⟨0, byteSize literal⟩ (byteSize (ofGlyphs front)) ∨
        ∃ range ∈ ranges.map (ByteRange.shift (byteSize literal)),
          range.Holds (byteSize (ofGlyphs front))) := by
    rintro between hglyphs rfl
    rw [byteSize_quotedGlyphs_append, exists_holds_shift_iff, h between glyph back hglyphs,
      or_iff_right]
    simp [ByteRange.Holds]
  rcases List.append_eq_append_iff.1 heq with ⟨between, hfront, hback⟩ | ⟨between, hfront, hback⟩
  · exact hbehind between hback hfront
  · cases between with
    | nil =>
        rw [List.append_nil] at hfront
        exact hbehind [] hback.symm (by rw [List.append_nil, hfront])
    | cons first between =>
        obtain ⟨rfl, -⟩ := List.cons.inj hback
        have hmem : glyph ∈ quotedGlyphs literal := by simp [hfront]
        obtain ⟨c, -, rfl⟩ := List.mem_map.1 hmem
        have hsize := byteSize_quotedGlyphs_append literal []
        rw [List.append_nil, hfront, ofGlyphs_append, byteSize_append, ofGlyphs_cons,
          byteSize_cons] at hsize
        have hpos := c.utf8Size_pos
        refine iff_of_true rfl (.inl ⟨Nat.zero_le _, ?_⟩)
        simp only [ofGlyphs, List.map_nil, byteSize] at hsize ⊢
        omega

theorem agree_marks (text : Text) : Agree (marks text) (quotedRanges text) := by
  induction text using induction_on_literals with
  | nil => simp [Agree, marks, marksFrom]
  | bare c text hc ih =>
      have hmark : marks (c :: text) = ⟨c, false⟩ :: marks text :=
        @marks_append_of_no_quote [c] (by simpa using hc) text
      rw [hmark, quotedRanges_of_bare hc]
      exact ih.cons_bare c
  | literal quote text hquote ih =>
      rw [marks_cons_of_isQuote hquote, quotedRanges_of_isQuote hquote]
      exact ih.append_literal _

/-! ## Characters outside literals -/

/-- The character stands at the offset and in none of the literals. -/
def BareAt (text : Text) (c : Char) (offset : Nat) : Prop :=
  StandsAt text offset [c] ∧ ∀ range ∈ quotedRanges text, ¬ range.Holds offset

theorem standsAt_singleton_iff {text : Text} {c : Char} {offset : Nat} :
    StandsAt text offset [c] ↔ ∃ front quoted back,
      marks text = front ++ ⟨c, quoted⟩ :: back ∧ byteSize (ofGlyphs front) = offset := by
  constructor
  · rintro ⟨front, back, rfl, rfl⟩
    refine ⟨marks front, (Mode.outside.after front).covers c,
      marksFrom ((Mode.outside.after front).next c) back, ?_, by rw [ofGlyphs_marks]⟩
    rw [List.append_assoc, marks, marksFrom_append]
    rfl
  · rintro ⟨front, quoted, back, hmarks, rfl⟩
    refine ⟨ofGlyphs front, ofGlyphs back, ?_, rfl⟩
    rw [← ofGlyphs_marks text, hmarks, ofGlyphs_append, ofGlyphs_cons]
    simp

theorem bareAt_iff {text : Text} {c : Char} {offset : Nat} :
    BareAt text c offset ↔ ∃ front back,
      marks text = front ++ ⟨c, false⟩ :: back ∧ byteSize (ofGlyphs front) = offset := by
  constructor
  · rintro ⟨hstands, hnone⟩
    obtain ⟨front, quoted, back, hmarks, rfl⟩ := standsAt_singleton_iff.1 hstands
    cases quoted with
    | false => exact ⟨front, back, hmarks, rfl⟩
    | true =>
        obtain ⟨range, hrange, hholds⟩ := (agree_marks text front _ back hmarks).1 rfl
        exact absurd hholds (hnone range hrange)
  · rintro ⟨front, back, hmarks, rfl⟩
    refine ⟨standsAt_singleton_iff.2 ⟨front, false, back, hmarks, rfl⟩, ?_⟩
    intro range hrange hholds
    exact Bool.false_ne_true ((agree_marks text front _ back hmarks).2 ⟨range, hrange, hholds⟩)

/-- Quotes do not stand outside literals. -/
theorem exists_holds_of_isQuote {text : Text} {quote : Char} {offset : Nat}
    (hquote : isQuote quote = true) (h : StandsAt text offset [quote]) :
    ∃ range ∈ quotedRanges text, range.Holds offset := by
  by_contra hnone
  rw [not_exists] at hnone
  obtain ⟨front, back, hmarks, -⟩ := bareAt_iff.1 ⟨h, by simpa using hnone⟩
  obtain ⟨-, hbare, -⟩ := closed_of_marks_eq hmarks
  rw [hquote] at hbare
  cases hbare

/-! ## Ranges told by what they are -/

/-- The ranges are literals one behind the other, of which the last one may not be closed, and
all quotes of the text are in them. -/
structure Quoting (text : Text) (ranges : List ByteRange) : Prop where
  ascending : ranges.Pairwise fun range later => range.stop ≤ later.start
  opened : ∀ range ∈ ranges, ∃ quote, isQuote quote = true ∧ StandsAt text range.start [quote]
  closed : ∀ range ∈ ranges.dropLast, LiteralAt text range
  literal : ∀ range ∈ ranges, LiteralAt text range ∨ OpenLiteralAt text range
  quotes : ∀ quote offset, isQuote quote = true → StandsAt text offset [quote] →
    ∃ range ∈ ranges, range.Holds offset

theorem quoting_quotedRanges (text : Text) : Quoting text (quotedRanges text) where
  ascending := pairwise_quotedRanges text
  opened := exists_quote_at_start text
  closed _ h := literalAt_of_mem_dropLast h
  literal := literalAt_or_openLiteralAt text
  quotes _ _ hquote h := exists_holds_of_isQuote hquote h

theorem Quoting.start_lt_stop {text : Text} {ranges : List ByteRange} (h : Quoting text ranges) :
    ∀ range ∈ ranges, range.start < range.stop := by
  intro range hrange
  have hpos : ∀ {quote : Char} {rest : Text}, StandsIn text range (quote :: rest) →
      range.start < range.stop := by
    intro quote rest hstands
    have hsize := hstands.2
    have hquote := quote.utf8Size_pos
    rw [byteSize_cons] at hsize
    omega
  rcases h.literal range hrange with ⟨_, ⟨quote, inner, -, -, rfl⟩, hstands⟩ |
    ⟨_, ⟨quote, inner, -, -, rfl | rfl⟩, hstands, -⟩
  all_goals exact hpos hstands

theorem Quoting.behind {front text : Text} {first ranges : List ByteRange}
    (h : Quoting (front ++ text) (first ++ ranges.map (ByteRange.shift (byteSize front))))
    (hfirst : ∀ range ∈ first, range.stop ≤ byteSize front) : Quoting text ranges where
  ascending := by
    have hranges := (List.pairwise_append.1 h.ascending).2.1
    rw [List.pairwise_map] at hranges
    exact hranges.imp fun hle => Nat.le_of_add_le_add_left hle
  opened range hrange := by
    obtain ⟨quote, hquote, hstands⟩ :=
      h.opened _ (List.mem_append_right first (List.mem_map_of_mem hrange))
    exact ⟨quote, hquote, standsAt_shift_iff.1 hstands⟩
  closed range hrange := by
    have hne : ranges.map (ByteRange.shift (byteSize front)) ≠ [] := by
      rw [ne_eq, List.map_eq_nil_iff]
      exact List.ne_nil_of_mem (List.mem_of_mem_dropLast hrange)
    refine literalAt_shift_iff.1 (h.closed _ ?_)
    rw [List.dropLast_append_of_ne_nil hne, ← List.map_dropLast]
    exact List.mem_append_right first (List.mem_map_of_mem hrange)
  literal range hrange := by
    have hliteral := h.literal _ (List.mem_append_right first (List.mem_map_of_mem hrange))
    exact hliteral.imp literalAt_shift_iff.1 openLiteralAt_shift_iff.1
  quotes quote offset hquote hstands := by
    obtain ⟨range, hrange, hholds⟩ := h.quotes quote _ hquote (hstands.shift front)
    refine exists_holds_shift_iff.1 ⟨range, (List.mem_append.1 hrange).resolve_left ?_, hholds⟩
    intro hmem
    have hstop := hfirst range hmem
    have hlt := hholds.2
    omega

/-- Ranges that begin behind a text can be counted from its end. -/
theorem exists_map_shift {ranges : List ByteRange} {size : Nat}
    (h : ∀ range ∈ ranges, size ≤ range.start ∧ range.start < range.stop) :
    ∃ rest, ranges = List.map (ByteRange.shift size) rest := by
  refine ⟨ranges.map fun range => ⟨range.start - size, range.stop - size⟩, ?_⟩
  rw [List.map_map]
  refine (List.map_id ranges).symm.trans (List.map_congr_left fun range hrange => ?_)
  have hrange' := h range hrange
  obtain ⟨start, stop⟩ := range
  simp only [id_eq, Function.comp_apply, ByteRange.shift, ByteRange.mk.injEq] at hrange' ⊢
  omega

theorem Inner.takeLiteral_append {quote : Char} {inner : Text} (h : Inner quote inner)
    (back : Text) : takeLiteral quote (inner ++ back) =
      (inner ++ (takeLiteral quote back).1, (takeLiteral quote back).2) := by
  induction h with
  | nil => rfl
  | plain notQuote notSlash rest ih =>
      rw [List.cons_append, takeLiteral_cons notSlash, if_neg notQuote, ih]
      rfl
  | escaped rest ih =>
      rw [List.cons_append, List.cons_append, takeLiteral, ih]
      rfl

/-- The range of a literal at the start of a text. -/
theorem stop_eq_of_literal {quote : Char} {text : Text} {range : ByteRange}
    (hstart : range.start = 0)
    (h : LiteralAt (quote :: text) range ∨ OpenLiteralAt (quote :: text) range) :
    range.stop = byteSize (quote :: (takeLiteral quote text).1) := by
  have hfirst : ∀ {part : Text}, StandsIn (quote :: text) range part →
      range.stop = byteSize part ∧ ∃ back, quote :: text = part ++ back := by
    rintro part ⟨⟨front, back, heq, hfront⟩, hstop⟩
    rw [hstart] at hfront hstop
    rw [byteSize_eq_zero_iff.1 hfront, List.nil_append] at heq
    exact ⟨hstop.trans (Nat.zero_add _), back, heq⟩
  rcases h with ⟨_, ⟨other, inner, hquote, hinner, rfl⟩, hstands⟩ |
    ⟨literal, ⟨other, inner, hquote, hinner, hliteral⟩, hstands, hend⟩
  · obtain ⟨hstop, back, heq⟩ := hfirst hstands
    rw [List.cons_append, List.cons_append, List.append_assoc] at heq
    obtain ⟨rfl, rfl⟩ := List.cons.inj heq
    rw [hstop, hinner.takeLiteral_append, List.singleton_append,
      takeLiteral_cons (ne_backslash_of_isQuote hquote), if_pos rfl]
    rfl
  · -- Nothing can stand behind an open literal, so the literal is the text.
    obtain ⟨hstop, back, heq⟩ := hfirst hstands
    have hback : back = [] := by
      have hsize := congrArg byteSize heq
      rw [byteSize_append, ← hend, hstop] at hsize
      exact byteSize_eq_zero_iff.1 (by omega)
    rw [hback, List.append_nil] at heq
    rw [hend]
    rcases hliteral with rfl | rfl
    · obtain ⟨rfl, rfl⟩ := List.cons.inj heq
      have htake := hinner.takeLiteral_append []
      rw [List.append_nil] at htake
      rw [htake]
      simp [takeLiteral]
    · rw [List.cons_append] at heq
      obtain ⟨rfl, rfl⟩ := List.cons.inj heq
      rw [hinner.takeLiteral_append]
      simp [takeLiteral]

/-- The ranges of the literals are the only ones that are literals one behind the other and hold
all quotes. -/
theorem quoting_iff {text : Text} {ranges : List ByteRange} :
    Quoting text ranges ↔ ranges = quotedRanges text := by
  refine ⟨fun h => ?_, fun h => h ▸ quoting_quotedRanges text⟩
  induction text using induction_on_literals generalizing ranges with
  | nil =>
      rw [quotedRanges_nil, List.eq_nil_iff_forall_not_mem]
      intro range hrange
      obtain ⟨quote, -, front, back, heq, -⟩ := h.opened range hrange
      simp at heq
  | bare c text hc ih =>
      have hbehind : ∀ range ∈ ranges,
          byteSize [c] ≤ range.start ∧ range.start < range.stop := by
        intro range hrange
        refine ⟨?_, h.start_lt_stop range hrange⟩
        obtain ⟨quote, hquote, front, back, heq, hsize⟩ := h.opened range hrange
        cases front with
        | nil =>
            obtain ⟨rfl, -⟩ := List.cons.inj heq
            rw [hquote] at hc
            cases hc
        | cons d front =>
            obtain ⟨rfl, -⟩ := List.cons.inj heq
            rw [← hsize, byteSize_cons, byteSize_cons]
            exact Nat.add_le_add_left (Nat.zero_le _) _
      obtain ⟨rest, rfl⟩ := exists_map_shift hbehind
      have hrest : Quoting text rest := @Quoting.behind [c] text [] rest h (by simp)
      rw [quotedRanges_of_bare hc, ih hrest]
  | literal quote text hquote ih =>
      obtain ⟨first, ranges, rfl⟩ : ∃ first rest, ranges = first :: rest := by
        obtain ⟨range, hrange, -⟩ := h.quotes quote 0 hquote ⟨[], text, rfl, rfl⟩
        exact List.exists_cons_of_ne_nil (List.ne_nil_of_mem hrange)
      have hascending := (List.pairwise_cons.1 h.ascending).1
      have hlt := h.start_lt_stop
      have hfirst := hlt first List.mem_cons_self
      -- The quote at the start is in one of the ranges, and only the first one can hold it.
      have hstart : first.start = 0 := by
        obtain ⟨range, hrange, hholds⟩ := h.quotes quote 0 hquote ⟨[], text, rfl, rfl⟩
        have hzero : range.start = 0 := Nat.le_zero.1 hholds.1
        rcases List.mem_cons.1 hrange with rfl | hrange
        · exact hzero
        · have hle := hascending range hrange
          omega
      have hstop := stop_eq_of_literal hstart (h.literal first List.mem_cons_self)
      obtain ⟨rest, rfl⟩ : ∃ rest, ranges =
          List.map (ByteRange.shift (byteSize (quote :: (takeLiteral quote text).1))) rest := by
        apply exists_map_shift
        intro range hrange
        exact ⟨hstop ▸ hascending range hrange, hlt range (List.mem_cons_of_mem _ hrange)⟩
      have hrest : Quoting (takeLiteral quote text).2 rest := by
        rw [← append_takeLiteral quote text] at h
        exact @Quoting.behind _ _ [first] rest h (by simp [hstop])
      rw [quotedRanges_of_isQuote hquote, ih hrest, ← hstop, ← hstart]

end TagTemplate.Text
