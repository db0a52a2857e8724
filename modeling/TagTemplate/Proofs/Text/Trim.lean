import Mathlib.Data.List.DropRight
import Mathlib.Data.List.Infix
import TagTemplate.Text.Basic

/-!
# What trimming takes away

Trimming takes blanks from the two ends of a text and nothing else, and blanks put
around a text do not change what trimming leaves.
-/

namespace TagTemplate.Text

def AllBlank (text : Text) : Prop :=
  ∀ c ∈ text, isBlank c = true

instance (text : Text) : Decidable (AllBlank text) :=
  List.decidableBAll (fun c => isBlank c = true) text

theorem allBlank_takeWhile (text : Text) : AllBlank (text.takeWhile isBlank) :=
  fun _ hmem => List.mem_takeWhile_imp hmem

/-- A run that is dropped stops at a character that is not in it. -/
theorem not_of_mem_head?_dropWhile {α : Type} (p : α → Bool) (list : List α) {a : α}
    (h : a ∈ (list.dropWhile p).head?) : p a = false := by
  have hhead := List.head?_dropWhile_not p list
  rw [show (list.dropWhile p).head? = some a from h] at hhead
  exact hhead

/-! ## The end of a text -/

theorem trimEnd_cons (c : Char) (text : Text) :
    trimEnd (c :: text) =
      if trimEnd text = [] ∧ isBlank c = true then [] else c :: trimEnd text := by
  simp only [trimEnd]
  cases trimEnd text with
  | nil => by_cases h : isBlank c = true <;> simp [h]
  | cons d rest => simp

theorem trimEnd_eq_rdropWhile (text : Text) : trimEnd text = text.rdropWhile isBlank := by
  induction text with
  | nil => rfl
  | cons c text ih =>
      rw [trimEnd_cons, ih]
      simp only [List.rdropWhile, List.reverse_cons, List.dropWhile_append, List.isEmpty_iff]
      by_cases hnil : List.dropWhile isBlank text.reverse = []
      · by_cases hc : isBlank c = true <;> simp [hnil, hc]
      · simp [hnil]

theorem trimEnd_eq_nil_iff {text : Text} : trimEnd text = [] ↔ AllBlank text := by
  rw [trimEnd_eq_rdropWhile, List.rdropWhile_eq_nil_iff]
  rfl

theorem trimEnd_append_of_allBlank (text : Text) {back : Text} (h : AllBlank back) :
    trimEnd (text ++ back) = trimEnd text := by
  simp only [trimEnd_eq_rdropWhile, List.rdropWhile, List.reverse_append]
  rw [List.dropWhile_append_of_pos]
  intro c hc
  exact h c (List.mem_reverse.1 hc)

theorem exists_eq_trimEnd_append (text : Text) :
    ∃ back, AllBlank back ∧ text = trimEnd text ++ back := by
  refine ⟨text.rtakeWhile isBlank, ?_, ?_⟩
  · exact fun c hc => List.mem_rtakeWhile_imp hc
  · rw [trimEnd_eq_rdropWhile, List.rdropWhile_append_rtakeWhile]

theorem trimEnd_append_cons {c : Char} (hc : isBlank c = false) (front back : Text) :
    trimEnd (front ++ c :: back) = front ++ c :: trimEnd back := by
  have hcons : ∀ text, trimEnd (c :: text) = c :: trimEnd text := by
    intro text
    rw [trimEnd_cons, if_neg (by simp [hc])]
  induction front with
  | nil => exact hcons back
  | cons d front ih =>
      rw [List.cons_append, trimEnd_cons, ih, if_neg (by simp), List.cons_append]

/-! ## Both ends -/

theorem trimStart_append_of_allBlank {front : Text} (h : AllBlank front) (text : Text) :
    trimStart (front ++ text) = trimStart text :=
  List.dropWhile_append_of_pos h

theorem trim_eq_trimEnd {text : Text} (h : ∀ c ∈ text.head?, isBlank c = false) :
    trim text = trimEnd text := by
  cases text with
  | nil => rfl
  | cons c text =>
      have hc : isBlank c = false := h c rfl
      simp [trim, trimStart, hc]

theorem trim_of_no_blank {text : Text} (h : ∀ c ∈ text, isBlank c = false) : trim text = text := by
  rw [trim_eq_trimEnd fun c hc => h c (List.mem_of_mem_head? hc), trimEnd_eq_rdropWhile]
  exact List.rdropWhile_eq_self_iff.2 fun hne => by simp [h _ (List.getLast_mem hne)]

theorem trim_cons_of_isBlank {c : Char} (h : isBlank c = true) (text : Text) :
    trim (c :: text) = trim text := by
  simp [trim, trimStart, h]

theorem trim_append_of_allBlank_left {front : Text} (h : AllBlank front) (text : Text) :
    trim (front ++ text) = trim text := by
  rw [trim, trim, trimStart_append_of_allBlank h]

theorem trim_append_of_allBlank_right (text : Text) {back : Text} (h : AllBlank back) :
    trim (text ++ back) = trim text := by
  by_cases hblank : AllBlank text
  · have hnil : ∀ {t : Text}, AllBlank t → trim t = [] := by
      intro t ht
      rw [trim, trimEnd_eq_nil_iff]
      exact fun c hc => ht c ((List.dropWhile_sublist _).subset hc)
    rw [hnil hblank, hnil]
    intro c hc
    rcases List.mem_append.1 hc with hc | hc
    · exact hblank c hc
    · exact h c hc
  · have hstart : trimStart (text ++ back) = trimStart text ++ back := by
      have hne : trimStart text ≠ [] := by
        intro hnil
        exact hblank (List.dropWhile_eq_nil_iff.1 hnil)
      rw [trimStart, List.dropWhile_append, if_neg (by simpa [trimStart] using hne)]
      rfl
    rw [trim, trim, hstart, trimEnd_append_of_allBlank _ h]

theorem exists_eq_append_trim (text : Text) :
    ∃ front back, AllBlank front ∧ AllBlank back ∧ text = front ++ trim text ++ back := by
  obtain ⟨back, hback, heq⟩ := exists_eq_trimEnd_append (trimStart text)
  refine ⟨text.takeWhile isBlank, back, allBlank_takeWhile text, hback, ?_⟩
  rw [List.append_assoc, trim, ← heq]
  exact List.takeWhile_append_dropWhile.symm

theorem trim_isInfix (text : Text) : trim text <:+: text := by
  obtain ⟨front, back, -, -, heq⟩ := exists_eq_append_trim text
  exact ⟨front, back, heq.symm⟩

theorem trimEnd_isInfix (text : Text) : trimEnd text <:+: text := by
  obtain ⟨back, -, heq⟩ := exists_eq_trimEnd_append text
  exact ⟨[], back, heq.symm⟩

theorem trimStart_isInfix (text : Text) : trimStart text <:+: text :=
  (List.dropWhile_suffix isBlank).isInfix

/-! ## Trimmed texts -/

/-- No blank stands at either end of the text. -/
structure Trimmed (text : Text) : Prop where
  first : ∀ c ∈ text.head?, isBlank c = false
  last : ∀ c ∈ text.getLast?, isBlank c = false

theorem Trimmed.trim_eq {text : Text} (h : Trimmed text) : trim text = text := by
  rw [trim_eq_trimEnd h.first, trimEnd_eq_rdropWhile, List.rdropWhile_eq_self_iff]
  intro hne
  simp [h.last _ (List.getLast_mem_getLast? hne)]

theorem trimmed_trim (text : Text) : Trimmed (trim text) := by
  constructor
  · intro c hc
    rw [trim] at hc
    cases hstart : trimStart text with
    | nil => simp [hstart, trimEnd] at hc
    | cons d rest =>
        have hd : isBlank d = false :=
          not_of_mem_head?_dropWhile isBlank text
            (show d ∈ (trimStart text).head? by rw [hstart]; rfl)
        rw [hstart, trimEnd_cons, if_neg (by simp [hd])] at hc
        obtain rfl := Option.some.inj hc
        exact hd
  · intro c hc
    rw [trim, trimEnd_eq_rdropWhile] at hc
    have hne := List.ne_nil_of_mem (List.mem_of_getLast? hc)
    have hlast := List.rdropWhile_last_not isBlank (trimStart text) hne
    rw [List.getLast?_eq_some_getLast hne, Option.mem_some_iff] at hc
    rw [hc] at hlast
    simpa using hlast

end TagTemplate.Text
