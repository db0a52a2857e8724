import TagTemplate.Proofs.Text.Literals

/-!
# Literals of a part

A part of a text that cuts through no literal has its literals where the whole text has them
(`quotedRanges_part`).  A cut through no literal leaves none open (`closed_of_not_isCutAt`), and
behind a text that leaves none open literals are where they would be by themselves
(`Closed.quotedRanges_append`).
-/

namespace TagTemplate.Text

/-- A literal that ends in a text is the same with other text behind. -/
theorem takeLiteral_of_closed {quote : Char} {text : Text}
    (h : (Mode.inside quote).after text = .outside) :
    Closed (takeLiteral quote text).2 ∧ ∀ back, takeLiteral quote (text ++ back) =
      ((takeLiteral quote text).1, (takeLiteral quote text).2 ++ back) := by
  fun_induction takeLiteral quote text with
  | case1 => cases h
  | case2 => simp [Mode.after, Mode.next] at h
  | case3 c text body rest hliteral ih =>
      rw [hliteral] at ih
      obtain ⟨hrest, happend⟩ := ih h
      refine ⟨hrest, fun back => ?_⟩
      rw [List.cons_append, List.cons_append, takeLiteral, happend back]
  | case4 rest hlast hescape =>
      have hslash := ne_backslash hlast hescape
      refine ⟨?_, fun back => ?_⟩
      · rwa [Mode.after, List.foldl_cons, Mode.next, if_neg hslash, if_pos rfl] at h
      · rw [List.cons_append, takeLiteral_cons hslash, if_pos rfl]
  | case5 c text hlast hescape hquote body rest hliteral ih =>
      have hslash := ne_backslash hlast hescape
      rw [Mode.after, List.foldl_cons, Mode.next, if_neg hslash, if_neg hquote] at h
      rw [hliteral] at ih
      obtain ⟨hrest, happend⟩ := ih h
      refine ⟨hrest, fun back => ?_⟩
      rw [List.cons_append, takeLiteral_cons hslash, if_neg hquote, happend back]

/-- Behind a text that closes its literals, literals are where they would be by themselves. -/
theorem Closed.quotedRanges_append {front : Text} (h : Closed front) (back : Text) :
    quotedRanges (front ++ back) =
      quotedRanges front ++ (quotedRanges back).map (ByteRange.shift (byteSize front)) := by
  induction front using induction_on_literals with
  | nil =>
      rw [List.nil_append, quotedRanges_nil, List.nil_append]
      exact (List.map_id'' ByteRange.shift_zero _).symm
  | bare c front hc ih =>
      have hc' : Closed [c] := closed_of_no_quote (by simpa using hc)
      have hfront : Closed front := Closed.of_append_left h hc'
      rw [List.cons_append, quotedRanges_of_bare hc, quotedRanges_of_bare hc, ih hfront,
        List.map_append, ByteRange.map_shift_map_shift]
      rfl
  | literal quote front hquote ih =>
      have hopened : (Mode.inside quote).after front = .outside := by
        rwa [Closed, Mode.after, List.foldl_cons, Mode.next, if_pos hquote] at h
      obtain ⟨hrest, happend⟩ := takeLiteral_of_closed hopened
      have hsize := congrArg byteSize (append_takeLiteral quote front)
      rw [byteSize_append] at hsize
      rw [List.cons_append, quotedRanges_of_isQuote hquote, quotedRanges_of_isQuote hquote,
        happend back, ih hrest, List.map_append,
        ByteRange.map_shift_map_shift, hsize, List.cons_append]

theorem Inner.after_append {quote : Char} {inner : Text} (h : Inner quote inner)
    (hquote : isQuote quote = true) : (Mode.inside quote).after (inner ++ [quote]) = .outside := by
  have hslash := ne_backslash_of_isQuote hquote
  induction h with
  | nil => rw [List.nil_append, Mode.after, List.foldl_cons, Mode.next, if_neg hslash, if_pos rfl,
      List.foldl_nil]
  | plain notQuote notSlash rest ih =>
      rw [List.cons_append, Mode.after, List.foldl_cons, Mode.next, if_neg notSlash,
        if_neg notQuote]
      exact ih
  | escaped rest ih => exact ih

theorem IsLiteral.closed {literal : Text} (h : IsLiteral literal) : Closed literal := by
  obtain ⟨quote, inner, hquote, hinner, rfl⟩ := h
  rw [List.cons_append, Closed, Mode.after, List.foldl_cons, Mode.next, if_pos hquote]
  exact hinner.after_append hquote

theorem closed_of_takeLiteral_ne_nil {quote : Char} {text : Text} (hquote : isQuote quote = true)
    (h : (takeLiteral quote text).2 ≠ []) : Closed (quote :: (takeLiteral quote text).1) := by
  refine ((isLiteral_or_isOpenLiteral hquote text).resolve_right ?_).closed
  exact fun hopen => h hopen.2

theorem not_isCutAt_of_shift {ranges : List ByteRange} {size offset : Nat}
    (h : ∀ range ∈ ranges.map (ByteRange.shift size), ¬ range.IsCutAt (size + offset)) :
    ∀ range ∈ ranges, ¬ range.IsCutAt offset := by
  intro range hrange hcut
  refine h _ (List.mem_map_of_mem hrange) ?_
  simp only [ByteRange.IsCutAt, ByteRange.shift] at hcut ⊢
  omega

/-- A cut with text behind it leaves no literal open, or it goes through a literal. -/
theorem closed_of_not_isCutAt {front back : Text} {c : Char}
    (h : ∀ range ∈ quotedRanges (front ++ c :: back), ¬ range.IsCutAt (byteSize front)) :
    Closed front := by
  induction htext : front ++ c :: back using induction_on_literals generalizing front with
  | nil => simp at htext
  | bare d text hd ih =>
      cases front with
      | nil => rfl
      | cons e front =>
          obtain ⟨rfl, hrest⟩ := List.cons.inj htext
          rw [htext, quotedRanges_of_bare hd] at h
          subst hrest
          have hfront : Closed front := ih (not_isCutAt_of_shift h) rfl
          have he : Closed [e] := closed_of_no_quote (by simpa using hd)
          exact he.append hfront
  | literal quote text hquote ih =>
      rw [htext, quotedRanges_of_isQuote hquote, List.forall_mem_cons] at h
      have hliteral := @closed_of_takeLiteral_ne_nil quote text hquote
      rw [← append_takeLiteral quote text] at htext
      rcases List.append_eq_append_iff.1 htext with ⟨between, hlit, hback⟩ | ⟨between, hlit, hback⟩
      · cases between with
        | nil =>
            rw [List.append_nil] at hlit
            rw [List.nil_append] at hback
            rw [← hlit]
            exact hliteral (by rw [← hback]; exact List.cons_ne_nil c back)
        | cons d between =>
            -- The end of the literal lies behind the cut, so its start cannot lie in front.
            have hsize := congrArg byteSize hlit
            have hpos := d.utf8Size_pos
            rw [byteSize_append, byteSize_cons d] at hsize
            have hzero : byteSize front = 0 := by
              by_contra hne
              exact h.1 ⟨Nat.pos_of_ne_zero hne, by dsimp only; omega⟩
            rw [byteSize_eq_zero_iff.1 hzero]
            rfl
      · subst hlit
        have hrest : (takeLiteral quote text).2 ≠ [] := by
          rw [hback]
          exact List.append_ne_nil_of_right_ne_nil between (List.cons_ne_nil c back)
        rw [byteSize_append] at h
        have hbetween : Closed between :=
          ih (by rw [← hback]; exact not_isCutAt_of_shift h.2) hback.symm
        exact (hliteral hrest).append hbetween

/-- The literals of a part that cuts through none of the literals of the whole are those of the
whole that lie in the part. -/
theorem quotedRanges_part {front part back : Text}
    (hfront : ∀ range ∈ quotedRanges (front ++ part ++ back), ¬ range.IsCutAt (byteSize front))
    (hback : ∀ range ∈ quotedRanges (front ++ part ++ back),
      ¬ range.IsCutAt (byteSize (front ++ part))) :
    (quotedRanges part).map (ByteRange.shift (byteSize front)) =
      (quotedRanges (front ++ part ++ back)).filter fun range =>
        byteSize front ≤ range.start ∧ range.stop ≤ byteSize (front ++ part) := by
  cases part with
  | nil =>
      rw [quotedRanges_nil, List.map_nil, eq_comm, List.filter_eq_nil_iff]
      intro range hrange
      have hlt := (start_lt_stop_and_stop_le _ range hrange).1
      rw [List.append_nil, decide_eq_true_iff]
      omega
  | cons c part =>
      have hclosed : Closed front := by
        rw [List.append_assoc, List.cons_append] at hfront
        exact closed_of_not_isCutAt hfront
      obtain ⟨later, hlater, hbehind⟩ : ∃ later,
          quotedRanges (c :: part ++ back) = quotedRanges (c :: part) ++ later ∧
            ∀ range ∈ later, byteSize (c :: part) < range.stop := by
        cases back with
        | nil => exact ⟨[], by simp, by simp⟩
        | cons d back =>
            have hpart := (closed_of_not_isCutAt hback).of_append_left hclosed
            refine ⟨_, hpart.quotedRanges_append (d :: back), List.forall_mem_map.2 ?_⟩
            intro range hrange
            have hlt := (start_lt_stop_and_stop_le _ range hrange).1
            simp only [ByteRange.shift]
            omega
      have hsize : byteSize (front ++ c :: part) = byteSize front + byteSize (c :: part) :=
        byteSize_append _ _
      rw [List.append_assoc, hclosed.quotedRanges_append, hlater, List.map_append,
        List.filter_append, List.filter_append, List.filter_eq_nil_iff.2, List.filter_eq_self.2,
        List.filter_eq_nil_iff.2, List.nil_append, List.append_nil]
      · rw [List.forall_mem_map]
        intro range hrange
        have hlt := hbehind range hrange
        rw [decide_eq_true_iff]
        simp only [ByteRange.shift]
        omega
      · rw [List.forall_mem_map]
        intro range hrange
        have hle := (start_lt_stop_and_stop_le _ range hrange).2
        rw [decide_eq_true_iff]
        simp only [ByteRange.shift]
        omega
      · intro range hrange
        have hinside := start_lt_stop_and_stop_le _ range hrange
        rw [decide_eq_true_iff]
        omega

end TagTemplate.Text
