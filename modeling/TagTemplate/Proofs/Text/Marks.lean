import TagTemplate.Proofs.Text.Parts

/-!
# Characters outside literals

A cut outside literals is made where a character is bare.  Without such a character there
is nothing to cut, and the cut at the first one is told by what stands in front of it
(`cutAtBare?_eq_some_iff`).
-/

namespace TagTemplate.Text

theorem Glyph.isBare_iff {c : Char} {glyph : Glyph} :
    glyph.isBare c = true ↔ glyph = ⟨c, false⟩ := by
  rcases glyph with ⟨d, quoted⟩
  simp [Glyph.isBare, and_comm]

/-! ## The first bare character -/

theorem cutAtBare?_eq_none_iff {c : Char} {glyphs : List Glyph} :
    cutAtBare? c glyphs = none ↔ ⟨c, false⟩ ∉ glyphs := by
  induction glyphs with
  | nil => simp [cutAtBare?]
  | cons glyph rest ih =>
      by_cases hbare : glyph.isBare c = true
      · rw [cutAtBare?, if_pos hbare, Glyph.isBare_iff.1 hbare]
        simp
      · have hglyph := mt Glyph.isBare_iff.2 hbare
        simp [cutAtBare?, hbare, ih, Ne.symm hglyph]

theorem cutAtBare?_append {c : Char} {front : List Glyph} (back : List Glyph)
    (h : ⟨c, false⟩ ∉ front) : cutAtBare? c (front ++ ⟨c, false⟩ :: back) = some (front, back) := by
  induction front with
  | nil => simp [cutAtBare?, Glyph.isBare]
  | cons glyph front ih =>
      rw [List.mem_cons, not_or] at h
      have hbare : ¬ glyph.isBare c = true := fun hbare => h.1 (Glyph.isBare_iff.1 hbare).symm
      simp [cutAtBare?, hbare, ih h.2]

theorem cutAtBare?_eq_some_iff {c : Char} {glyphs front back : List Glyph} :
    cutAtBare? c glyphs = some (front, back) ↔
      glyphs = front ++ ⟨c, false⟩ :: back ∧ ⟨c, false⟩ ∉ front := by
  constructor
  · intro h
    rcases eq_of_cutAtBare? h with ⟨heq, hfront⟩
    refine ⟨heq, fun hmem => ?_⟩
    have hbare := hfront _ hmem
    simp [Glyph.isBare] at hbare
  · rintro ⟨rfl, hfront⟩
    exact cutAtBare?_append back hfront

/-- The cut lies in front of every other place where it could be made. -/
theorem isSuffix_of_cutAtBare? {c : Char} {first inside front back : List Glyph}
    (hcut : cutAtBare? c (front ++ ⟨c, false⟩ :: back) = some (first, inside)) :
    back <:+ inside := by
  obtain ⟨heq, hfirst⟩ := cutAtBare?_eq_some_iff.1 hcut
  rcases List.append_eq_append_iff.1 heq with ⟨between, rfl, hback⟩ | ⟨between, rfl, hback⟩
  · cases between with
    | nil => exact (List.cons.inj hback).2 ▸ List.suffix_refl back
    | cons glyph between =>
        obtain ⟨rfl, -⟩ := List.cons.inj hback
        exact absurd (by simp) hfirst
  · cases between with
    | nil => exact (List.cons.inj hback).2 ▸ List.suffix_refl inside
    | cons glyph between =>
        obtain ⟨-, rfl⟩ := List.cons.inj hback
        exact (List.suffix_cons _ _).trans (List.suffix_append _ _)

/-! ## Texts that are not cut -/

/-- The glyph before the first one is the last one passed, further on. -/
theorem getLast?_cons_or (glyph : Glyph) (front : List Glyph) (before : Option Glyph) :
    (glyph :: front).getLast?.or before = front.getLast?.or (some glyph) := by
  rw [List.getLast?_cons]
  cases front.getLast? <;> rfl

theorem cutWhere_others_eq_nil_iff {isCut : Option Glyph → Glyph → Option Glyph → Bool}
    {before : Option Glyph} {glyphs : List Glyph} :
    (cutWhere isCut before glyphs).2 = [] ↔
      ∀ front glyph back, glyphs = front ++ glyph :: back →
        isCut (front.getLast?.or before) glyph back.head? = false := by
  induction glyphs generalizing before with
  | nil => simp [cutWhere]
  | cons glyph rest ih =>
      constructor
      · intro h front other back heq
        simp only [cutWhere] at h
        split at h
        · cases h
        · rename_i hhere
          cases front with
          | nil =>
              obtain ⟨rfl, rfl⟩ := List.cons.inj heq
              simpa using hhere
          | cons _ front =>
              obtain ⟨rfl, hrest⟩ := List.cons.inj heq
              rw [getLast?_cons_or]
              exact ih.1 h front other back hrest
      · intro h
        have hhere := h [] glyph rest rfl
        have hrest := ih.2 fun front other back heq =>
          (getLast?_cons_or glyph front before ▸ h (glyph :: front) other back (by rw [heq]; rfl))
        rw [List.getLast?_nil, Option.none_or] at hhere
        simp [cutWhere, hhere, hrest]

theorem cutWhere_first_of_others_eq_nil {isCut : Option Glyph → Glyph → Option Glyph → Bool}
    {before : Option Glyph} {glyphs : List Glyph} (h : (cutWhere isCut before glyphs).2 = []) :
    (cutWhere isCut before glyphs).1 = glyphs := by
  induction glyphs generalizing before with
  | nil => rfl
  | cons glyph rest ih =>
      simp only [cutWhere] at h ⊢
      split at h
      · cases h
      · rename_i hhere
        rw [if_neg hhere, ih h]

theorem trimParts_of_others_eq_nil {isCut : Option Glyph → Glyph → Option Glyph → Bool}
    {text : Text} (h : (cutWhere isCut none (marks text)).2 = []) :
    trimParts (cutWhere isCut none (marks text)) = (trim text, []) := by
  rw [trimParts, h, cutWhere_first_of_others_eq_nil h, ofGlyphs_marks]
  rfl

theorem splitOutside_eq_trim {separator : Char} {text : Text}
    (h : ⟨separator, false⟩ ∉ marks text) : splitOutside separator text = (trim text, []) := by
  apply trimParts_of_others_eq_nil
  rw [cutWhere_others_eq_nil_iff]
  intro front glyph back heq
  apply Bool.eq_false_iff.2
  intro hbare
  rw [Glyph.isBare_iff.1 hbare] at heq
  exact h (heq ▸ by simp)

/-- A bar stands outside literals and has no other bar next to it. -/
def HasPipe (text : Text) : Prop :=
  ∃ front back, marks text = front ++ ⟨'|', false⟩ :: back ∧
    (∀ glyph ∈ front.getLast?, glyph.char ≠ '|') ∧ ∀ glyph ∈ back.head?, glyph.char ≠ '|'

theorem isPipe_iff {before next : Option Glyph} {glyph : Glyph} :
    isPipe before glyph next = true ↔ glyph = ⟨'|', false⟩ ∧
      (∀ other ∈ before, other.char ≠ '|') ∧ ∀ other ∈ next, other.char ≠ '|' := by
  cases before <;> cases next <;>
    simp [isPipe, Glyph.isBare_iff, and_comm, and_assoc]

theorem hasPipe_iff {text : Text} : HasPipe text ↔ (cutWhere isPipe none (marks text)).2 ≠ [] := by
  rw [ne_eq, cutWhere_others_eq_nil_iff]
  constructor
  · rintro ⟨front, back, heq, hlast, hhead⟩ h
    have hpipe := h front _ back heq
    rw [Option.or_none, Bool.eq_false_iff, ne_eq, isPipe_iff] at hpipe
    exact hpipe ⟨rfl, hlast, hhead⟩
  · intro h
    by_contra hnone
    apply h
    intro front glyph back heq
    rw [Option.or_none, Bool.eq_false_iff, ne_eq, isPipe_iff]
    rintro ⟨rfl, hlast, hhead⟩
    exact hnone ⟨front, back, heq, hlast, hhead⟩

instance (text : Text) : Decidable (HasPipe text) :=
  decidable_of_iff _ hasPipe_iff.symm

theorem splitPipes_eq_trim {text : Text} (h : ¬ HasPipe text) :
    splitPipes text = (trim text, []) := by
  rw [hasPipe_iff, ne_eq, not_not] at h
  exact trimParts_of_others_eq_nil h

end TagTemplate.Text
