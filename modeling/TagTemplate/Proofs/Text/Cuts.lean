import TagTemplate.Proofs.Text.Closed

/-!
# Cuts outside literals

What the cuts outside literals give can be said without a search.  The parts of a text cut
at a separator hold no bare separator and have one between any two of them
(`splitOutside_eq_iff`); the cut at a blank is made in front of the first bare one
(`splitAtBlank_eq_iff`).  Where two marked texts meet at a place that is cut, each of them is
cut by itself (`cutWhere_append_cons`).
-/

namespace TagTemplate.Text

/-! ## Cuts at a separator -/

/-- The texts between the separators outside literals, without the blanks around them. -/
def IsSplitAt (separator : Char) (text : Text) (pieces : List Text) : Prop :=
  ∃ parts : List (List Glyph), parts ≠ [] ∧
    marks text = List.intercalate [⟨separator, false⟩] parts ∧
    (∀ part ∈ parts, ⟨separator, false⟩ ∉ part) ∧
    pieces = parts.map fun part => trim (ofGlyphs part)

theorem cutWhere_isBare_eq (separator : Char) (before : Option Glyph) (glyphs : List Glyph) :
    (cutWhere (fun _ glyph _ => glyph.isBare separator) before glyphs).1 ::
        (cutWhere (fun _ glyph _ => glyph.isBare separator) before glyphs).2 =
      glyphs.splitOn ⟨separator, false⟩ := by
  induction glyphs generalizing before with
  | nil => rfl
  | cons glyph rest ih =>
      rw [List.splitOn_cons_eq_if_modifyHead, ← ih (some glyph)]
      simp only [cutWhere]
      by_cases hbare : glyph.isBare separator = true
      · have heq : (glyph == ⟨separator, false⟩) = true := by
          simpa using Glyph.isBare_iff.1 hbare
        rw [if_pos hbare, if_pos heq]
      · have hne : ¬ (glyph == ⟨separator, false⟩) = true := by
          simpa using mt Glyph.isBare_iff.2 hbare
        rw [if_neg hbare, if_neg hne]
        rfl

theorem not_mem_of_mem_splitOn {glyph : Glyph} {glyphs part : List Glyph}
    (h : part ∈ glyphs.splitOn glyph) : glyph ∉ part := by
  induction glyphs generalizing part with
  | nil =>
      rw [List.splitOn_nil, List.mem_singleton] at h
      rw [h]
      exact List.not_mem_nil
  | cons other rest ih =>
      rw [List.splitOn_cons_eq_if_modifyHead] at h
      split at h
      · rcases List.mem_cons.1 h with rfl | h
        · exact List.not_mem_nil
        · exact ih h
      · rename_i hne
        obtain ⟨first, others, hrest⟩ := List.exists_cons_of_ne_nil (List.splitOn_ne_nil glyph rest)
        rw [hrest, List.modifyHead_cons] at h
        rcases List.mem_cons.1 h with rfl | h
        · rw [List.mem_cons, not_or]
          refine ⟨fun heq => hne (by simp [heq]), ih ?_⟩
          rw [hrest]
          exact List.mem_cons_self
        · exact ih (hrest ▸ List.mem_cons_of_mem first h)

theorem splitOutside_eq_iff {separator : Char} {text first : Text} {others : List Text} :
    splitOutside separator text = (first, others) ↔ IsSplitAt separator text (first :: others) := by
  have hsplit : (splitOutside separator text).1 :: (splitOutside separator text).2 =
      ((marks text).splitOn ⟨separator, false⟩).map fun part => trim (ofGlyphs part) := by
    rw [← cutWhere_isBare_eq separator none]
    rfl
  constructor
  · intro h
    rw [h] at hsplit
    exact ⟨_, List.splitOn_ne_nil _ _, (List.intercalate_splitOn _).symm,
      fun part hpart => not_mem_of_mem_splitOn hpart, hsplit⟩
  · rintro ⟨parts, hne, hmarks, hpart, hpieces⟩
    rw [hmarks, List.splitOn_intercalate _ hpart hne, ← hpieces] at hsplit
    obtain ⟨hfirst, hothers⟩ := List.cons.inj hsplit
    exact Prod.ext hfirst hothers

/-! ## The cut at a blank -/

/-- The text is cut in front of its first blank outside literals, or not at all if it has
none. -/
structure CutsAtBlank (text head tail : Text) : Prop where
  eq : text = head ++ tail
  noBlank : ∀ glyph ∈ marks head, glyph.quoted = true ∨ isBlank glyph.char = false
  blank : tail ≠ [] → Closed head ∧ ∃ c ∈ tail.head?, isBlank c = true

theorem cutsAtBlank_splitAtBlank (text : Text) :
    CutsAtBlank text (splitAtBlank text).1 (splitAtBlank text).2 := by
  simp only [splitAtBlank]
  set stays := fun glyph : Glyph => glyph.quoted || !isBlank glyph.char with hstays
  have hmarks := List.takeWhile_append_dropWhile (p := stays) (l := marks text)
  have hfront : ∀ glyph ∈ (marks text).takeWhile stays,
      glyph.quoted = true ∨ isBlank glyph.char = false := by
    intro glyph hglyph
    simpa [hstays] using List.mem_takeWhile_imp hglyph
  have heq : text = ofGlyphs ((marks text).takeWhile stays) ++
      ofGlyphs ((marks text).dropWhile stays) := by
    rw [← ofGlyphs_append, hmarks, ofGlyphs_marks]
  cases hback : (marks text).dropWhile stays with
  | nil =>
      rw [hback, List.append_nil] at hmarks
      rw [hback] at heq
      rw [hmarks] at hfront heq ⊢
      rw [ofGlyphs_marks]
      exact ⟨(List.append_nil text).symm, hfront, fun hne => absurd rfl hne⟩
  | cons glyph rest =>
      have hnot : stays glyph = false :=
        not_of_mem_head?_dropWhile stays (marks text) (by rw [hback]; rfl)
      obtain ⟨c, quoted⟩ := glyph
      simp only [hstays, Bool.or_eq_false_iff, Bool.not_eq_false'] at hnot
      obtain ⟨rfl, hc⟩ := hnot
      rw [hback] at hmarks heq
      obtain ⟨hclosed, -, hself, -⟩ := closed_of_marks_eq hmarks.symm
      refine ⟨heq, ?_, fun _ => ⟨hclosed, c, rfl, hc⟩⟩
      rwa [← hself]

theorem CutsAtBlank.splitAtBlank_eq {text head tail : Text} (h : CutsAtBlank text head tail) :
    splitAtBlank text = (head, tail) := by
  have hstays : ∀ glyph ∈ marks head, (glyph.quoted || !isBlank glyph.char) = true := by
    intro glyph hglyph
    simpa using h.noBlank glyph hglyph
  rw [h.eq]
  cases tail with
  | nil =>
      rw [List.append_nil, splitAtBlank, List.takeWhile_eq_self_iff.2 hstays,
        List.dropWhile_eq_nil_iff.2 hstays, ofGlyphs_marks]
      rfl
  | cons c rest =>
      obtain ⟨hclosed, d, hd, hc⟩ := h.blank (List.cons_ne_nil c rest)
      obtain rfl := Option.some.inj hd
      have hmark : marks (c :: rest) = ⟨c, false⟩ :: marks rest := by
        simp [marks, marksFrom, Mode.covers, Mode.next, isQuote_of_isBlank hc]
      rw [splitAtBlank, hclosed.marks_append, List.takeWhile_append_of_pos hstays,
        List.dropWhile_append_of_pos hstays, hmark, List.takeWhile_cons_of_neg (by simp [hc]),
        List.dropWhile_cons_of_neg (by simp [hc]), List.append_nil, ofGlyphs_marks,
        ofGlyphs_cons, ofGlyphs_marks]

theorem splitAtBlank_eq_iff {text head tail : Text} :
    splitAtBlank text = (head, tail) ↔ CutsAtBlank text head tail := by
  refine ⟨fun h => ?_, fun h => h.splitAtBlank_eq⟩
  have hcuts := cutsAtBlank_splitAtBlank text
  rwa [h] at hcuts

/-! ## Cuts where two marked texts meet -/

/-- What stands before the first character counts for that character only. -/
theorem cutWhere_congr_before {isCut : Option Glyph → Glyph → Option Glyph → Bool}
    {before before' : Option Glyph} {glyphs : List Glyph}
    (h : ∀ first ∈ glyphs.head?, ∀ next, isCut before first next = isCut before' first next) :
    cutWhere isCut before glyphs = cutWhere isCut before' glyphs := by
  cases glyphs with
  | nil => rfl
  | cons first rest => simp only [cutWhere, h first rfl]

/-- A cut between two texts leaves the cuts in each of them as they are, if the last
character in front of it does not mind what follows. -/
theorem cutWhere_append_cons {isCut : Option Glyph → Glyph → Option Glyph → Bool}
    {before : Option Glyph} {front back : List Glyph} {glyph : Glyph}
    (hcut : isCut (front.getLast?.or before) glyph back.head? = true)
    (hlast : ∀ last ∈ front.getLast?, ∀ other,
      isCut other last (some glyph) = isCut other last none) :
    cutWhere isCut before (front ++ glyph :: back) =
      ((cutWhere isCut before front).1, (cutWhere isCut before front).2 ++
        (cutWhere isCut (some glyph) back).1 :: (cutWhere isCut (some glyph) back).2) := by
  induction front generalizing before with
  | nil =>
      rw [List.getLast?_nil, Option.none_or] at hcut
      simp [cutWhere, hcut]
  | cons first front ih =>
      have hrest := @ih (some first) (by
        rw [List.getLast?_cons] at hcut
        cases hfront : front.getLast? <;> simpa [hfront] using hcut) (by
        intro last hmem
        apply hlast
        rw [List.getLast?_cons, show front.getLast? = some last from hmem]
        rfl)
      have hfirst : isCut before first (front ++ glyph :: back).head? =
          isCut before first front.head? := by
        cases front with
        | nil => exact hlast first rfl before
        | cons second front => rfl
      simp only [List.cons_append, cutWhere, hrest, hfirst]
      split <;> rfl

end TagTemplate.Text
