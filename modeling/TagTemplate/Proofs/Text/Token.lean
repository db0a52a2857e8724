import Mathlib.Data.List.Infix
import TagTemplate.Text.Basic

/-!
# The first place of a token

`cutToken?` cuts a text around the first place where a token stands.  What it finds
does not change when more text follows, and it finds nothing exactly when the token
stands nowhere.  A text `EndsFirst` before a token when the token, put behind the
text, stands for the first time right there.
-/

namespace TagTemplate.Text

theorem after?_eq_none_iff {token text : Text} :
    after? token text = none ↔ ¬ token <+: text := by
  rw [Option.eq_none_iff_forall_ne_some]
  constructor
  · intro h hstarts
    obtain ⟨rest, hrest⟩ := hstarts
    exact h rest (after?_eq_some_iff.2 hrest.symm)
  · intro h rest hrest
    exact h ⟨rest, (after?_eq_some_iff.1 hrest).symm⟩

theorem isSome_after?_iff {token text : Text} :
    (after? token text).isSome = true ↔ token <+: text := by
  rw [Option.isSome_iff_ne_none, Ne, after?_eq_none_iff, not_not]

theorem after?_append_of_some {token text rest : Text} (more : Text)
    (h : after? token text = some rest) :
    after? token (text ++ more) = some (rest ++ more) := by
  rw [after?_eq_some_iff] at h ⊢
  rw [h, List.append_assoc]

/-- In a text that is long enough a token is not made up by what follows. -/
theorem after?_append_of_length_le {token text : Text} (more : Text)
    (hlength : token.length ≤ text.length) (h : after? token text = none) :
    after? token (text ++ more) = none := by
  rw [after?_eq_none_iff] at h ⊢
  intro hstarts
  exact h (List.prefix_of_prefix_length_le hstarts (List.prefix_append text more) hlength)

/-- Cuts a text around the first place where the token stands: what stands before it and
what follows it. -/
def cutToken? (token : Text) : Text → Option (Text × Text)
  | [] => (after? token []).map fun rest => ([], rest)
  | c :: text =>
      match after? token (c :: text) with
      | some rest => some ([], rest)
      | none => (cutToken? token text).map fun (front, rest) => (c :: front, rest)

theorem cutToken?_of_after? {token text rest : Text} (h : after? token text = some rest) :
    cutToken? token text = some ([], rest) := by
  cases text with
  | nil => simp [cutToken?, h]
  | cons c text => simp [cutToken?, h]

theorem cutToken?_cons {token text : Text} {c : Char} (h : after? token (c :: text) = none) :
    cutToken? token (c :: text) =
      (cutToken? token text).map fun (front, rest) => (c :: front, rest) := by
  simp [cutToken?, h]

/-- Induction over the place that was found. -/
theorem cutToken?_cons_eq_some {token text rest front : Text} {c : Char}
    (h : cutToken? token (c :: text) = some (front, rest)) :
    (front = [] ∧ after? token (c :: text) = some rest) ∨
      ∃ front', front = c :: front' ∧ after? token (c :: text) = none ∧
        cutToken? token text = some (front', rest) := by
  cases hhere : after? token (c :: text) with
  | some rest' =>
      rw [cutToken?_of_after? hhere] at h
      simp only [Option.some.injEq, Prod.mk.injEq] at h
      obtain ⟨rfl, rfl⟩ := h
      exact Or.inl ⟨rfl, rfl⟩
  | none =>
      rw [cutToken?_cons hhere] at h
      obtain ⟨⟨front', rest'⟩, hfound, heq⟩ := Option.map_eq_some_iff.1 h
      simp only [Prod.mk.injEq] at heq
      obtain ⟨rfl, rfl⟩ := heq
      exact Or.inr ⟨front', rfl, rfl, hfound⟩

theorem eq_of_cutToken? {token text front rest : Text}
    (h : cutToken? token text = some (front, rest)) : text = front ++ token ++ rest := by
  induction text generalizing front with
  | nil =>
      obtain ⟨rest', hafter, heq⟩ := Option.map_eq_some_iff.1 h
      simp only [Prod.mk.injEq] at heq
      obtain ⟨rfl, rfl⟩ := heq
      simpa using after?_eq_some_iff.1 hafter
  | cons c text ih =>
      rcases cutToken?_cons_eq_some h with ⟨rfl, hafter⟩ | ⟨front', rfl, -, hfound⟩
      · simpa using after?_eq_some_iff.1 hafter
      · rw [ih hfound]
        simp

theorem cutToken?_eq_none_iff {token text : Text} :
    cutToken? token text = none ↔ ¬ token <:+: text := by
  induction text with
  | nil => simp [cutToken?, after?_eq_none_iff]
  | cons c text ih =>
      rw [List.infix_cons_iff, not_or, ← ih, ← after?_eq_none_iff]
      cases hafter : after? token (c :: text) with
      | some rest => simp [cutToken?_of_after? hafter]
      | none => simp [cutToken?_cons hafter]

theorem cutToken?_isSome_of_infix {token text : Text} (h : token <:+: text) :
    ∃ front rest, cutToken? token text = some (front, rest) := by
  cases hcut : cutToken? token text with
  | none => exact absurd h (cutToken?_eq_none_iff.1 hcut)
  | some parts => exact ⟨parts.1, parts.2, rfl⟩

theorem cutToken?_append {token text front rest : Text} (more : Text)
    (h : cutToken? token text = some (front, rest)) :
    cutToken? token (text ++ more) = some (front, rest ++ more) := by
  induction text generalizing front with
  | nil =>
      obtain ⟨rest', hafter, heq⟩ := Option.map_eq_some_iff.1 h
      simp only [Prod.mk.injEq] at heq
      obtain ⟨rfl, rfl⟩ := heq
      exact cutToken?_of_after? (after?_append_of_some more hafter)
  | cons c text ih =>
      have hlength := congrArg List.length (eq_of_cutToken? h)
      rcases cutToken?_cons_eq_some h with ⟨rfl, hafter⟩ | ⟨front', rfl, hafter, hfound⟩
      · exact cutToken?_of_after? (after?_append_of_some more hafter)
      · simp only [List.length_append, List.length_cons] at hlength
        have hnone : after? token (c :: (text ++ more)) = none :=
          after?_append_of_length_le more (by simp only [List.length_cons]; omega) hafter
        rw [List.cons_append, cutToken?_cons hnone, ih hfound]
        rfl

/-! ## Texts in front of a token -/

/-- Behind this text, the token stands for the first time where it was put. -/
def EndsFirst (token front : Text) : Prop :=
  cutToken? token (front ++ token) = some (front, [])

theorem EndsFirst.cutToken? {token front : Text} (h : EndsFirst token front) (rest : Text) :
    cutToken? token (front ++ token ++ rest) = some (front, rest) := by
  simpa using cutToken?_append rest h

theorem endsFirst_of_cutToken? {token text front rest : Text}
    (h : cutToken? token text = some (front, rest)) : EndsFirst token front := by
  induction text generalizing front with
  | nil =>
      obtain ⟨rest', hafter, heq⟩ := Option.map_eq_some_iff.1 h
      simp only [Prod.mk.injEq] at heq
      rw [EndsFirst, ← heq.1]
      exact cutToken?_of_after? (by simpa using after?_append token [])
  | cons c text ih =>
      have htext := eq_of_cutToken? h
      rcases cutToken?_cons_eq_some h with ⟨rfl, -⟩ | ⟨front', rfl, hafter, hfound⟩
      · exact cutToken?_of_after? (by simpa using after?_append token [])
      · have hnone : after? token (c :: (front' ++ token)) = none := by
          rw [after?_eq_none_iff] at hafter ⊢
          intro hstarts
          apply hafter
          rw [htext]
          exact hstarts.trans ⟨rest, by simp⟩
        have hfirst : cutToken? token (front' ++ token) = some (front', []) := ih hfound
        rw [EndsFirst, List.cons_append, cutToken?_cons hnone, hfirst]
        rfl

theorem endsFirst_nil (token : Text) : EndsFirst token [] :=
  cutToken?_of_after? (by simpa using after?_append token [])

theorem endsFirst_cons {token front : Text} {c : Char} (h : EndsFirst token (c :: front)) :
    (∀ rest, after? token (c :: (front ++ token ++ rest)) = none) ∧ EndsFirst token front := by
  have hcut := h
  rw [EndsFirst, List.cons_append] at hcut
  rcases cutToken?_cons_eq_some hcut with ⟨hnil, -⟩ | ⟨front', hfront, hafter, hfound⟩
  · cases hnil
  · obtain rfl := (List.cons.inj hfront).2
    refine ⟨?_, hfound⟩
    intro rest
    have hnone := after?_append_of_length_le rest
      (by simp only [List.length_cons, List.length_append]; omega) hafter
    simpa using hnone

/-- No place of the token lies before the one that is found. -/
theorem length_le_of_cutToken? {token front rest before behind : Text}
    (h : cutToken? token (before ++ token ++ behind) = some (front, rest)) :
    front.length ≤ before.length := by
  induction before generalizing front with
  | nil =>
      have hafter : after? token (token ++ behind) = some behind := after?_append token behind
      rw [List.nil_append, cutToken?_of_after? hafter] at h
      obtain ⟨rfl, -⟩ := Prod.mk.inj (Option.some.inj h)
      exact Nat.le_refl _
  | cons c before ih =>
      rcases cutToken?_cons_eq_some h with ⟨rfl, -⟩ | ⟨front', rfl, -, hfound⟩
      · exact Nat.zero_le _
      · exact Nat.succ_le_succ (ih hfound)

/-- The token stands in front of nothing only where it was put. -/
theorem endsFirst_iff {token front : Text} :
    EndsFirst token front ↔
      ∀ before behind, front ++ token = before ++ token ++ behind → behind = [] := by
  constructor
  · intro h before behind heq
    have hfirst := h
    rw [EndsFirst, heq] at hfirst
    have hle := length_le_of_cutToken? hfirst
    have hlength := congrArg List.length heq
    simp only [List.length_append] at hlength
    exact List.length_eq_zero_iff.1 (by omega)
  · intro h
    obtain ⟨before, behind, hcut⟩ :=
      cutToken?_isSome_of_infix (List.suffix_append front token).isInfix
    have heq := eq_of_cutToken? hcut
    obtain rfl := h before behind heq
    rw [List.append_nil] at heq
    obtain rfl := List.append_cancel_right heq
    exact hcut

/-- A character that is not in the token keeps the token apart from text without it. -/
theorem endsFirst_append_singleton {token front : Text} {c : Char} (hc : c ∉ token)
    (h : ¬ token <:+: front) : EndsFirst token (front ++ [c]) := by
  induction front with
  | nil =>
      have hnone : after? token (c :: token) = none := by
        rw [after?_eq_none_iff]
        intro hstarts
        cases token with
        | nil => exact h (List.nil_infix)
        | cons d token =>
            obtain ⟨rfl, -⟩ := List.cons_prefix_cons.1 hstarts
            exact hc List.mem_cons_self
      have hself : cutToken? token token = some ([], []) := endsFirst_nil token
      rw [EndsFirst, List.nil_append, List.singleton_append, cutToken?_cons hnone, hself]
      rfl
  | cons d front ih =>
      rw [List.infix_cons_iff, not_or] at h
      have hnone : after? token (d :: (front ++ [c] ++ token)) = none := by
        rw [after?_eq_none_iff]
        intro hstarts
        by_cases hlength : token.length ≤ (d :: front).length
        · refine h.1 (List.prefix_of_prefix_length_le hstarts ?_ hlength)
          exact ⟨[c] ++ token, by simp⟩
        · have hinside : d :: front ++ [c] <+: token := by
            refine List.prefix_of_prefix_length_le ⟨token, by simp⟩ hstarts ?_
            simp only [List.length_append, List.length_singleton]
            omega
          exact hc (hinside.subset (by simp))
      have hfirst : cutToken? token (front ++ [c] ++ token) = some (front ++ [c], []) := ih h.2
      rw [EndsFirst, List.cons_append, List.cons_append, cutToken?_cons hnone, hfirst]
      rfl

/-! ## Texts in which no token begins -/

/-- The token begins nowhere in the text, whatever follows. -/
def Clear (token text : Text) : Prop :=
  ∀ back, back <:+ text → back ≠ [] → ∀ more, after? token (back ++ more) = none

theorem Clear.of_cons {token text : Text} {c : Char} (h : Clear token (c :: text)) :
    Clear token text :=
  fun back hback => h back (hback.trans (List.suffix_cons c text))

end TagTemplate.Text
