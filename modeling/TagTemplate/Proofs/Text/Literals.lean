import TagTemplate.Proofs.Text.Offset
import TagTemplate.Proofs.Text.Pieces

/-!
# Places of literals

The literals of a text, taken whole, lie in ranges of bytes (`quotedRanges`), one behind the
other.  Each of them begins with a quote and is closed by the same quote, or else it is the last
one and runs to the end of the text (`literalAt_or_openLiteralAt`).
-/

namespace TagTemplate.Text

structure ByteRange where
  start : Nat
  stop : Nat
  deriving DecidableEq, Repr

namespace ByteRange

def Holds (range : ByteRange) (offset : Nat) : Prop :=
  range.start ≤ offset ∧ offset < range.stop

/-- A cut at the offset goes through the range. -/
def IsCutAt (range : ByteRange) (offset : Nat) : Prop :=
  range.start < offset ∧ offset < range.stop

instance (range : ByteRange) (offset : Nat) : Decidable (range.IsCutAt offset) :=
  inferInstanceAs (Decidable (_ ∧ _))

/-- The range behind a text of that many bytes. -/
def shift (size : Nat) (range : ByteRange) : ByteRange :=
  ⟨size + range.start, size + range.stop⟩

@[simp] theorem shift_zero (range : ByteRange) : range.shift 0 = range := by
  simp [shift]

theorem shift_shift (size more : Nat) (range : ByteRange) :
    (range.shift more).shift size = range.shift (size + more) := by
  simp only [shift, Nat.add_assoc]

theorem map_shift_map_shift (ranges : List ByteRange) (size more : Nat) :
    (ranges.map (shift more)).map (shift size) = ranges.map (shift (size + more)) := by
  rw [List.map_map]
  exact List.map_congr_left fun range _ => range.shift_shift size more

theorem holds_shift_iff {size offset : Nat} {range : ByteRange} :
    (range.shift size).Holds (size + offset) ↔ range.Holds offset := by
  simp only [Holds, shift]
  omega

end ByteRange

/-- The bytes of the literals among the pieces. -/
def rangesOf : List Piece → List ByteRange
  | [] => []
  | .bare run :: rest => (rangesOf rest).map (ByteRange.shift (byteSize run))
  | .literal body :: rest =>
      ⟨0, byteSize body⟩ :: (rangesOf rest).map (ByteRange.shift (byteSize body))

/-- The bytes of the literals of a text, their quotes included. -/
def quotedRanges (text : Text) : List ByteRange :=
  rangesOf (pieces text)

theorem quotedRanges_nil : quotedRanges [] = [] := by
  rw [quotedRanges, pieces]
  rfl

theorem quotedRanges_of_isQuote {quote : Char} (hquote : isQuote quote = true) (text : Text) :
    quotedRanges (quote :: text) =
      ⟨0, byteSize (quote :: (takeLiteral quote text).1)⟩ ::
        (quotedRanges (takeLiteral quote text).2).map
          (ByteRange.shift (byteSize (quote :: (takeLiteral quote text).1))) := by
  rw [quotedRanges, pieces, if_pos hquote]
  rfl

theorem quotedRanges_of_bare {c : Char} (hc : isQuote c = false) (text : Text) :
    quotedRanges (c :: text) = (quotedRanges text).map (ByteRange.shift (byteSize [c])) := by
  -- A run goes on with the text behind its first character, if that begins with a run.
  have hrun : quotedRanges text = (quotedRanges (text.dropWhile fun d => !isQuote d)).map
      (ByteRange.shift (byteSize (text.takeWhile fun d => !isQuote d))) := by
    cases text with
    | nil =>
        rw [List.dropWhile_nil, quotedRanges_nil]
        rfl
    | cons d text =>
        by_cases hd : isQuote d = true
        · rw [List.dropWhile_cons_of_neg (by simp [hd]), List.takeWhile_cons_of_neg (by simp [hd])]
          exact (List.map_id'' ByteRange.shift_zero _).symm
        · rw [List.dropWhile_cons_of_pos (by simp [hd]), List.takeWhile_cons_of_pos (by simp [hd]),
            quotedRanges, pieces, if_neg hd]
          rfl
  rw [hrun, ByteRange.map_shift_map_shift, quotedRanges, pieces, if_neg (by simp [hc])]
  rfl

/-- Texts are built from bare characters and whole literals. -/
theorem induction_on_literals {motive : Text → Prop} (nil : motive [])
    (bare : ∀ c text, isQuote c = false → motive text → motive (c :: text))
    (literal : ∀ quote text, isQuote quote = true → motive (takeLiteral quote text).2 →
      motive (quote :: text)) (text : Text) : motive text := by
  induction hlength : text.length using Nat.strong_induction_on generalizing text with
  | _ length ih =>
      cases text with
      | nil => exact nil
      | cons c text =>
          have hless : ∀ rest : Text, rest.length ≤ text.length → motive rest := by
            intro rest hrest
            refine ih rest.length ?_ rest rfl
            rw [← hlength, List.length_cons]
            omega
          by_cases hc : isQuote c = true
          · exact literal c text hc (hless _ (takeLiteral_rest_length_le c text))
          · exact bare c text (by simpa using hc) (hless _ le_rfl)

/-! ## Ranges one behind the other -/

theorem append_takeLiteral (quote : Char) (text : Text) :
    quote :: (takeLiteral quote text).1 ++ (takeLiteral quote text).2 = quote :: text := by
  rw [List.cons_append, takeLiteral_append]

/-- What is true of a literal at the start of a text, and stays true behind other text, is true
of all literals. -/
theorem forall_mem_quotedRanges {P : Text → ByteRange → Prop}
    (first : ∀ quote text, isQuote quote = true →
      P (quote :: text) ⟨0, byteSize (quote :: (takeLiteral quote text).1)⟩)
    (behind : ∀ front text range, P text range → P (front ++ text) (range.shift (byteSize front)))
    (text : Text) : ∀ range ∈ quotedRanges text, P text range := by
  induction text using induction_on_literals with
  | nil => simp [quotedRanges_nil]
  | bare c text hc ih =>
      rw [quotedRanges_of_bare hc, List.forall_mem_map]
      exact fun range hrange => behind [c] text range (ih range hrange)
  | literal quote text hquote ih =>
      rw [quotedRanges_of_isQuote hquote, List.forall_mem_cons, List.forall_mem_map]
      refine ⟨first quote text hquote, fun range hrange => ?_⟩
      have hrest := behind (quote :: (takeLiteral quote text).1) _ range (ih range hrange)
      rwa [append_takeLiteral] at hrest

theorem start_lt_stop_and_stop_le (text : Text) :
    ∀ range ∈ quotedRanges text, range.start < range.stop ∧ range.stop ≤ byteSize text := by
  apply forall_mem_quotedRanges
  · intro quote text hquote
    have hpos := quote.utf8Size_pos
    have hsize := congrArg byteSize (append_takeLiteral quote text)
    rw [byteSize_append] at hsize
    simp only [byteSize_cons] at hsize ⊢
    omega
  · intro front text range hrange
    rw [byteSize_append]
    simp only [ByteRange.shift]
    omega

theorem pairwise_quotedRanges (text : Text) :
    (quotedRanges text).Pairwise fun range later => range.stop ≤ later.start := by
  have hshift : ∀ {ranges : List ByteRange} (size : Nat),
      (ranges.Pairwise fun range later => range.stop ≤ later.start) →
        (ranges.map (ByteRange.shift size)).Pairwise
          fun range later => range.stop ≤ later.start := by
    intro ranges size hranges
    rw [List.pairwise_map]
    exact hranges.imp fun hle => Nat.add_le_add_left hle size
  induction text using induction_on_literals with
  | nil =>
      rw [quotedRanges_nil]
      exact List.Pairwise.nil
  | bare c text hc ih =>
      rw [quotedRanges_of_bare hc]
      exact hshift _ ih
  | literal quote text hquote ih =>
      rw [quotedRanges_of_isQuote hquote]
      refine List.pairwise_cons.2 ⟨fun range hrange => ?_, hshift _ ih⟩
      obtain ⟨range, -, rfl⟩ := List.mem_map.1 hrange
      exact Nat.le_add_right _ _

/-! ## Literals -/

/-- A text between two quotes: a backslash takes the character behind it along, and the quote
does not stand by itself. -/
inductive Inner (quote : Char) : Text → Prop
  | nil : Inner quote []
  | plain {c : Char} {text : Text} (notQuote : c ≠ quote) (notSlash : c ≠ '\\')
      (rest : Inner quote text) : Inner quote (c :: text)
  | escaped {c : Char} {text : Text} (rest : Inner quote text) : Inner quote ('\\' :: c :: text)

/-- A literal with both its quotes. -/
def IsLiteral (literal : Text) : Prop :=
  ∃ quote inner, isQuote quote = true ∧ Inner quote inner ∧ literal = quote :: inner ++ [quote]

/-- A literal without its second quote.  A backslash may come last, with nothing to take along. -/
def IsOpenLiteral (literal : Text) : Prop :=
  ∃ quote inner, isQuote quote = true ∧ Inner quote inner ∧
    (literal = quote :: inner ∨ literal = quote :: inner ++ ['\\'])

theorem takeLiteral_cons {quote c : Char} (hc : c ≠ '\\') (text : Text) :
    takeLiteral quote (c :: text) = if c = quote then ([c], text)
      else (c :: (takeLiteral quote text).1, (takeLiteral quote text).2) := by
  rw [takeLiteral]
  · exact fun heq _ => hc heq
  · exact fun _ _ heq _ => hc heq

/-- A literal is closed, or it runs to the end of the text. -/
theorem inner_takeLiteral (quote : Char) (text : Text) :
    (∃ inner, Inner quote inner ∧ (takeLiteral quote text).1 = inner ++ [quote]) ∨
      (∃ inner, Inner quote inner ∧ ((takeLiteral quote text).1 = inner ∨
        (takeLiteral quote text).1 = inner ++ ['\\'])) ∧ (takeLiteral quote text).2 = [] := by
  fun_induction takeLiteral quote text with
  | case1 => exact .inr ⟨⟨[], .nil, .inl rfl⟩, rfl⟩
  | case2 => exact .inr ⟨⟨[], .nil, .inr rfl⟩, rfl⟩
  | case3 c text body rest hliteral ih =>
      rw [hliteral] at ih
      rcases ih with ⟨inner, hinner, rfl⟩ | ⟨⟨inner, hinner, rfl | rfl⟩, hrest⟩
      · exact .inl ⟨_, hinner.escaped, rfl⟩
      · exact .inr ⟨⟨_, hinner.escaped, .inl rfl⟩, hrest⟩
      · exact .inr ⟨⟨_, hinner.escaped, .inr rfl⟩, hrest⟩
  | case4 rest hlast hescape => exact .inl ⟨[], .nil, rfl⟩
  | case5 c text hlast hescape hquote body rest hliteral ih =>
      have hslash := ne_backslash hlast hescape
      rw [hliteral] at ih
      rcases ih with ⟨inner, hinner, rfl⟩ | ⟨⟨inner, hinner, rfl | rfl⟩, hrest⟩
      · exact .inl ⟨_, hinner.plain hquote hslash, rfl⟩
      · exact .inr ⟨⟨_, hinner.plain hquote hslash, .inl rfl⟩, hrest⟩
      · exact .inr ⟨⟨_, hinner.plain hquote hslash, .inr rfl⟩, hrest⟩

theorem isLiteral_or_isOpenLiteral {quote : Char} (hquote : isQuote quote = true) (text : Text) :
    IsLiteral (quote :: (takeLiteral quote text).1) ∨
      IsOpenLiteral (quote :: (takeLiteral quote text).1) ∧ (takeLiteral quote text).2 = [] := by
  rcases inner_takeLiteral quote text with ⟨inner, hinner, heq⟩ | ⟨⟨inner, hinner, heq⟩, hrest⟩
  · exact .inl ⟨quote, inner, hquote, hinner, congrArg (quote :: ·) heq⟩
  · exact .inr ⟨⟨quote, inner, hquote, hinner,
      heq.imp (congrArg (quote :: ·)) (congrArg (quote :: ·))⟩, hrest⟩

/-- The range is where the part stands in the text. -/
def StandsIn (text : Text) (range : ByteRange) (part : Text) : Prop :=
  StandsAt text range.start part ∧ range.stop = range.start + byteSize part

theorem standsIn_shift_iff {front text part : Text} {range : ByteRange} :
    StandsIn (front ++ text) (range.shift (byteSize front)) part ↔ StandsIn text range part := by
  refine and_congr standsAt_shift_iff ?_
  simp only [ByteRange.shift]
  omega

def LiteralAt (text : Text) (range : ByteRange) : Prop :=
  ∃ literal, IsLiteral literal ∧ StandsIn text range literal

/-- A literal that is not closed lies in the range, up to the end of the text. -/
def OpenLiteralAt (text : Text) (range : ByteRange) : Prop :=
  ∃ literal, IsOpenLiteral literal ∧ StandsIn text range literal ∧ range.stop = byteSize text

theorem literalAt_shift_iff {front text : Text} {range : ByteRange} :
    LiteralAt (front ++ text) (range.shift (byteSize front)) ↔ LiteralAt text range :=
  exists_congr fun _ => and_congr_right fun _ => standsIn_shift_iff

theorem openLiteralAt_shift_iff {front text : Text} {range : ByteRange} :
    OpenLiteralAt (front ++ text) (range.shift (byteSize front)) ↔ OpenLiteralAt text range := by
  refine exists_congr fun literal => and_congr_right fun _ => and_congr standsIn_shift_iff ?_
  rw [byteSize_append]
  exact Nat.add_left_cancel_iff

theorem exists_quote_at_start (text : Text) : ∀ range ∈ quotedRanges text,
    ∃ quote, isQuote quote = true ∧ StandsAt text range.start [quote] := by
  apply forall_mem_quotedRanges
  · intro quote text hquote
    exact ⟨quote, hquote, [], text, rfl, rfl⟩
  · rintro front text range ⟨quote, hquote, hstands⟩
    exact ⟨quote, hquote, hstands.shift front⟩

theorem literalAt_or_openLiteralAt (text : Text) : ∀ range ∈ quotedRanges text,
    LiteralAt text range ∨ OpenLiteralAt text range := by
  apply forall_mem_quotedRanges
  · intro quote text hquote
    have htext := append_takeLiteral quote text
    have hstands : StandsIn (quote :: text) ⟨0, byteSize (quote :: (takeLiteral quote text).1)⟩
        (quote :: (takeLiteral quote text).1) :=
      ⟨⟨[], (takeLiteral quote text).2, htext.symm, rfl⟩, (Nat.zero_add _).symm⟩
    rcases isLiteral_or_isOpenLiteral hquote text with hliteral | ⟨hopen, hrest⟩
    · exact .inl ⟨_, hliteral, hstands⟩
    · rw [hrest, List.append_nil] at htext
      exact .inr ⟨_, hopen, hstands, congrArg byteSize htext⟩
  · intro front text range hrange
    exact hrange.imp literalAt_shift_iff.2 openLiteralAt_shift_iff.2

/-- Every literal but the last has both its quotes. -/
theorem literalAt_of_mem_dropLast {text : Text} {range : ByteRange}
    (h : range ∈ (quotedRanges text).dropLast) : LiteralAt text range := by
  have hmem := List.mem_of_mem_dropLast h
  refine (literalAt_or_openLiteralAt text range hmem).resolve_right ?_
  rintro ⟨-, -, -, hstop⟩
  have hne : quotedRanges text ≠ [] := List.ne_nil_of_mem hmem
  have hlast := start_lt_stop_and_stop_le text _ (List.getLast_mem hne)
  have hpairwise := pairwise_quotedRanges text
  rw [← List.dropLast_append_getLast hne, List.pairwise_append] at hpairwise
  have hbehind := hpairwise.2.2 range h _ (List.mem_singleton_self _)
  omega

end TagTemplate.Text
