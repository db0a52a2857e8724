import Mathlib.Data.List.Chain
import TagTemplate.Proofs.Text.Token

/-!
# Pairs of neighbouring characters

A token of two different characters cannot overlap itself, so a text holds it exactly
when the first character stands directly before the second one somewhere.  `Apart`
says that this is nowhere the case.  Two texts that are put together stay apart unless
the pair comes about at the seam.
-/

namespace TagTemplate.Text

/-- The character `c` stands nowhere directly before `d`. -/
def Apart (c d : Char) (text : Text) : Prop :=
  text.IsChain fun left right => ¬ (left = c ∧ right = d)

instance (c d : Char) (text : Text) : Decidable (Apart c d text) :=
  inferInstanceAs (Decidable (text.IsChain fun left right => ¬ (left = c ∧ right = d)))

variable {c d : Char}

theorem apart_iff {text : Text} : Apart c d text ↔ ¬ [c, d] <:+: text := by
  rw [Apart, List.isChain_iff_forall_rel_of_append_cons_cons]
  constructor
  · rintro h ⟨front, rest, heq⟩
    refine @h c d front rest ?_ ⟨rfl, rfl⟩
    rw [← heq]
    simp
  · rintro h a b front rest heq ⟨rfl, rfl⟩
    exact h ⟨front, rest, by rw [heq]; simp⟩

theorem apart_append {front back : Text} :
    Apart c d (front ++ back) ↔
      Apart c d front ∧ Apart c d back ∧ ¬ (front.getLast? = some c ∧ back.head? = some d) := by
  rw [Apart, List.isChain_append]
  refine and_congr_right fun _ => and_congr_right fun _ => ?_
  constructor
  · intro h hseam
    exact h c hseam.1 d hseam.2 ⟨rfl, rfl⟩
  · rintro h left hleft right hright ⟨rfl, rfl⟩
    exact h ⟨hleft, hright⟩

theorem Apart.of_isInfix {part text : Text} (h : Apart c d text) (hpart : part <:+: text) :
    Apart c d part := by
  rw [apart_iff] at h ⊢
  exact fun hin => h (hin.trans hpart)

theorem apart_of_not_mem_left {text : Text} (h : c ∉ text) : Apart c d text := by
  rw [apart_iff]
  exact fun hin => h (hin.subset (by simp))

theorem apart_of_not_mem_right {text : Text} (h : d ∉ text) : Apart c d text := by
  rw [apart_iff]
  exact fun hin => h (hin.subset (by simp))

theorem endsFirst_pair (hne : c ≠ d) {text : Text} (h : Apart c d text) :
    EndsFirst [c, d] text := by
  induction text with
  | nil => exact endsFirst_nil [c, d]
  | cons e text ih =>
      have htail : Apart c d text := h.of_isInfix (List.suffix_cons e text).isInfix
      have hnone : after? [c, d] (e :: (text ++ [c, d])) = none := by
        rw [after?_eq_none_iff]
        rintro ⟨rest, heq⟩
        simp only [List.cons_append, List.nil_append, List.cons.injEq] at heq
        obtain ⟨rfl, heq⟩ := heq
        cases text with
        | nil => exact hne (List.cons.inj heq).1.symm
        | cons f text =>
            obtain rfl := (List.cons.inj heq).1
            exact apart_iff.1 h ⟨[], text, rfl⟩
      have hfirst : cutToken? [c, d] (text ++ [c, d]) = some (text, []) := ih htail
      rw [EndsFirst, List.cons_append, cutToken?_cons hnone, hfirst]
      rfl

/-- Only at the end of a text can a pair begin that is not in the text. -/
theorem clear_pair {text : Text} (h : Apart c d text) (hlast : text.getLast? ≠ some c) :
    Clear [c, d] text := by
  intro back hback hne more
  obtain ⟨front, rfl⟩ := hback
  obtain ⟨e, back, rfl⟩ := List.exists_cons_of_ne_nil hne
  rw [after?_eq_none_iff]
  rintro ⟨rest, heq⟩
  simp only [List.cons_append, List.nil_append, List.cons.injEq] at heq
  obtain ⟨rfl, heq⟩ := heq
  cases back with
  | nil => exact hlast (by simp)
  | cons f back =>
      obtain rfl := (List.cons.inj heq).1
      exact apart_iff.1 h ⟨front, back, by simp⟩

/-! ## Putting texts together -/

/-- The text is apart, and no pair begins at its end. -/
def Shut (c d : Char) (text : Text) : Prop :=
  Apart c d text ∧ text.getLast? ≠ some c

instance (c d : Char) (text : Text) : Decidable (Shut c d text) :=
  inferInstanceAs (Decidable (Apart c d text ∧ text.getLast? ≠ some c))

/-- The text is apart, and neither end of it is half of a pair. -/
def Firm (c d : Char) (text : Text) : Prop :=
  Shut c d text ∧ text ≠ [] ∧ text.head? ≠ some d

instance (c d : Char) (text : Text) : Decidable (Firm c d text) :=
  inferInstanceAs (Decidable (Shut c d text ∧ text ≠ [] ∧ text.head? ≠ some d))

theorem shut_nil : Shut c d [] :=
  ⟨List.IsChain.nil, by simp⟩

theorem Shut.append {front back : Text} (h : Shut c d front) (hback : Apart c d back) :
    Apart c d (front ++ back) :=
  apart_append.2 ⟨h.1, hback, fun hseam => h.2 hseam.1⟩

theorem Shut.append_shut {front back : Text} (h : Shut c d front) (hback : Shut c d back) :
    Shut c d (front ++ back) := by
  refine ⟨h.append hback.1, ?_⟩
  rw [List.getLast?_append]
  cases hlast : back.getLast? with
  | none => exact h.2
  | some e =>
      rw [← hlast, Option.or_of_isSome (by rw [hlast]; rfl)]
      exact hback.2

theorem Apart.append {front word : Text} (h : Apart c d front) (hword : Firm c d word) :
    Shut c d (front ++ word) := by
  obtain ⟨⟨hapart, hlast⟩, hne, hhead⟩ := hword
  refine ⟨apart_append.2 ⟨h, hapart, fun hseam => hhead hseam.2⟩, ?_⟩
  rw [List.getLast?_append_of_ne_nil _ hne]
  exact hlast

/-- The second text stands for the first one: it has no pair that the first one has not,
and no half of a pair at an end. -/
structure Keeps (c d : Char) (before after : Text) : Prop where
  apart : Apart c d before → Apart c d after
  head : after.head? = some d → before.head? = some d
  last : after.getLast? = some c → before.getLast? = some c
  nil : after = [] → before = []

theorem Keeps.refl (c d : Char) (text : Text) : Keeps c d text text :=
  ⟨id, id, id, id⟩

theorem Keeps.of_firm {before after : Text} (h : Firm c d after) : Keeps c d before after where
  apart := fun _ => h.1.1
  head := fun hhead => absurd hhead h.2.2
  last := fun hlast => absurd hlast h.1.2
  nil := fun hnil => absurd hnil h.2.1

theorem Keeps.append {front front' back back' : Text} (hfront : Keeps c d front front')
    (hback : Keeps c d back back') : Keeps c d (front ++ back) (front' ++ back') where
  apart := by
    intro h
    obtain ⟨hapart, hapart', hseam⟩ := apart_append.1 h
    refine apart_append.2 ⟨hfront.apart hapart, hback.apart hapart', ?_⟩
    rintro ⟨hlast, hhead⟩
    exact hseam ⟨hfront.last hlast, hback.head hhead⟩
  head := by
    intro hhead
    by_cases hnil : front' = []
    · rw [hnil, List.nil_append] at hhead
      rw [hfront.nil hnil, List.nil_append]
      exact hback.head hhead
    · rw [List.head?_append_of_ne_nil _ hnil] at hhead
      have hbefore := hfront.head hhead
      rw [List.head?_append, hbefore]
      rfl
  last := by
    intro hlast
    by_cases hnil : back' = []
    · rw [hnil, List.append_nil] at hlast
      rw [hback.nil hnil, List.append_nil]
      exact hfront.last hlast
    · rw [List.getLast?_append_of_ne_nil _ hnil] at hlast
      have hbefore := hback.last hlast
      rw [List.getLast?_append, hbefore]
      rfl
  nil := by
    intro hnil
    obtain ⟨hnil, hnil'⟩ := List.append_eq_nil_iff.1 hnil
    rw [hfront.nil hnil, hback.nil hnil', List.append_nil]

/-- The pair stands in two texts put together: in the second one, in the first one, or
with one character in each. -/
theorem pair_isSuffix_append {right front back : Text} (h : [c, d] ++ right <:+ front ++ back) :
    [c, d] ++ right <:+ back ∨
      (∃ inside, right = inside ++ back ∧ [c, d] ++ inside <:+ front) ∨
      (front.getLast? = some c ∧ back.head? = some d) := by
  obtain ⟨left, heq⟩ := h
  rcases List.append_eq_append_iff.1 heq with ⟨middle, hfront, hright⟩ | ⟨middle, hleft, hback⟩
  · cases middle with
    | nil => exact Or.inl ⟨[], by simpa using hright⟩
    | cons e middle =>
        simp only [List.cons_append, List.nil_append, List.cons.injEq] at hright
        obtain ⟨rfl, hright⟩ := hright
        cases middle with
        | nil =>
            refine Or.inr (Or.inr ⟨?_, ?_⟩)
            · rw [hfront, List.getLast?_concat]
            · rw [List.nil_append] at hright
              rw [← hright]
              rfl
        | cons f middle =>
            simp only [List.cons_append, List.cons.injEq] at hright
            obtain ⟨rfl, hright⟩ := hright
            exact Or.inr (Or.inl ⟨middle, hright, left, by rw [hfront]; rfl⟩)
  · exact Or.inl ⟨middle, hback.symm⟩

theorem Shut.isSuffix_of_append {right front back : Text} (h : Shut c d front)
    (hsuffix : [c, d] ++ right <:+ front ++ back) : [c, d] ++ right <:+ back := by
  rcases pair_isSuffix_append hsuffix with hback | ⟨inside, -, hinside⟩ | ⟨hlast, -⟩
  · exact hback
  · exact absurd ((List.infix_append_left).trans hinside.isInfix) (apart_iff.1 h.1)
  · exact absurd hlast h.2

/-- A pair that comes about when a character is dropped had only that character in it. -/
theorem exists_replicate_of_filter {e : Char} {text : Text}
    (h : [c, d] <:+: text.filter (· != e)) :
    ∃ count, c :: (List.replicate count e ++ [d]) <:+: text := by
  have hnext : ∀ {text : Text}, [d] <+: text.filter (· != e) →
      ∃ count, List.replicate count e ++ [d] <+: text := by
    intro text
    induction text with
    | nil => exact fun h => absurd (List.prefix_nil.1 h) (List.cons_ne_nil _ _)
    | cons f text ih =>
        intro h
        by_cases hf : f = e
        · subst hf
          obtain ⟨count, hcount⟩ := ih (by simpa using h)
          exact ⟨count + 1, (List.prefix_cons_inj f).2 hcount⟩
        · rw [List.filter_cons_of_pos (by simpa using hf)] at h
          obtain ⟨rest, hrest⟩ := h
          obtain rfl := (List.cons.inj hrest).1
          exact ⟨0, text, rfl⟩
  induction text with
  | nil => exact absurd (List.infix_nil.1 h) (List.cons_ne_nil _ _)
  | cons f text ih =>
      by_cases hf : f = e
      · obtain ⟨count, hcount⟩ := ih (by simpa [hf] using h)
        exact ⟨count, List.infix_cons hcount⟩
      · rw [List.filter_cons_of_pos (by simpa using hf)] at h
        rcases List.infix_cons_iff.1 h with hstarts | hinside
        · obtain ⟨rfl, hrest⟩ := List.cons_prefix_cons.1 hstarts
          obtain ⟨count, hcount⟩ := hnext hrest
          exact ⟨count, ((List.prefix_cons_inj c).2 hcount).isInfix⟩
        · obtain ⟨count, hcount⟩ := ih hinside
          exact ⟨count, List.infix_cons hcount⟩

end TagTemplate.Text
