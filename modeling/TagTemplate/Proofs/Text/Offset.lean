import Mathlib.Order.Bounds.Basic
import TagTemplate.Proofs.Text.Token

/-!
# Offsets in a text

An offset counts the bytes of UTF-8 in front of a place.  Every character takes a byte at
least, so an offset belongs to one place only (`eq_of_byteSize_eq`), and the first place
of a token is also the one with the least offset (`isLeast_standsAt_iff`).
-/

namespace TagTemplate.Text

theorem byteSize_cons (c : Char) (text : Text) :
    byteSize (c :: text) = c.utf8Size + byteSize text := rfl

theorem byteSize_eq_zero_iff {text : Text} : byteSize text = 0 ↔ text = [] := by
  cases text with
  | nil => simp [byteSize]
  | cons c text =>
      have hpos := c.utf8Size_pos
      simp only [byteSize_cons, List.cons_ne_nil, iff_false]
      omega

/-- Of two places in a text, the one with the lesser offset comes first. -/
theorem exists_eq_append_of_byteSize_le {front back front' back' : Text}
    (h : front ++ back = front' ++ back') (hle : byteSize front ≤ byteSize front') :
    ∃ between, front' = front ++ between ∧ back = between ++ back' := by
  rcases List.append_eq_append_iff.1 h with ⟨between, hfront, hback⟩ | ⟨between, hfront, hback⟩
  · exact ⟨between, hfront, hback⟩
  · have hsize := congrArg byteSize hfront
    rw [byteSize_append] at hsize
    have hnil : between = [] := byteSize_eq_zero_iff.1 (by omega)
    subst hnil
    exact ⟨[], by simpa using hfront.symm, by simpa using hback.symm⟩

theorem eq_of_byteSize_eq {front back front' back' : Text}
    (h : front ++ back = front' ++ back') (hsize : byteSize front = byteSize front') :
    front = front' ∧ back = back' := by
  rcases exists_eq_append_of_byteSize_le h (Nat.le_of_eq hsize) with ⟨between, rfl, rfl⟩
  rw [byteSize_append] at hsize
  have hnil : between = [] := byteSize_eq_zero_iff.1 (by omega)
  subst hnil
  exact ⟨by simp, by simp⟩

/-! ## Places of tokens -/

/-- A character begins at the offset, or the text ends there. -/
def IsBoundary (text : Text) (offset : Nat) : Prop :=
  ∃ front back, text = front ++ back ∧ byteSize front = offset

/-- The token stands in the text at an offset. -/
def StandsAt (text : Text) (offset : Nat) (token : Text) : Prop :=
  ∃ front back, text = front ++ token ++ back ∧ byteSize front = offset

theorem StandsAt.isBoundary {text token : Text} {offset : Nat} (h : StandsAt text offset token) :
    IsBoundary text offset ∧ IsBoundary text (offset + byteSize token) := by
  rcases h with ⟨front, back, rfl, rfl⟩
  exact ⟨⟨front, token ++ back, by simp, rfl⟩, front ++ token, back, rfl, byteSize_append _ _⟩

theorem standsAt_behind_iff {front back token : Text} :
    StandsAt (front ++ back) (byteSize front) token ↔ token <+: back := by
  constructor
  · rintro ⟨front', rest, heq, hfront⟩
    rw [List.append_assoc] at heq
    exact ⟨rest, (eq_of_byteSize_eq heq hfront.symm).2.symm⟩
  · rintro ⟨rest, rfl⟩
    exact ⟨front, rest, by simp, rfl⟩

theorem StandsAt.shift {text token : Text} {offset : Nat} (h : StandsAt text offset token)
    (front : Text) : StandsAt (front ++ text) (byteSize front + offset) token := by
  obtain ⟨before, back, rfl, rfl⟩ := h
  exact ⟨front ++ before, back, by simp, byteSize_append front before⟩

theorem standsAt_next_iff {front back : Text} {c next : Char} :
    StandsAt (front ++ c :: back) (byteSize front + c.utf8Size) [next] ↔
      back.head? = some next := by
  have hbehind : StandsAt (front ++ [c] ++ back) (byteSize (front ++ [c])) [next] ↔
      [next] <+: back := standsAt_behind_iff
  rw [byteSize_append, List.append_assoc] at hbehind
  refine Iff.trans hbehind ?_
  cases back with
  | nil => simp
  | cons d back => simp [List.cons_prefix_cons, eq_comm]

theorem standsAt_last_iff {front back : Text} {last : Char} :
    (∃ offset, offset + last.utf8Size = byteSize front ∧ StandsAt (front ++ back) offset [last]) ↔
      front.getLast? = some last := by
  rw [List.getLast?_eq_some_iff]
  constructor
  · rintro ⟨_, hsize, before, rest, heq, rfl⟩
    have hfront : byteSize front = byteSize (before ++ [last]) := by
      rw [← hsize, byteSize_append]
      rfl
    exact ⟨before, (eq_of_byteSize_eq heq hfront).1⟩
  · rintro ⟨before, rfl⟩
    exact ⟨byteSize before, (byteSize_append before [last]).symm, before, back, rfl, rfl⟩

theorem StandsAt.behind {front back token : Text} {offset : Nat}
    (h : StandsAt (front ++ back) offset token) (hle : byteSize front ≤ offset) :
    ∃ between rest, back = between ++ token ++ rest ∧
      offset = byteSize front + byteSize between := by
  rcases h with ⟨front', rest, heq, rfl⟩
  rw [List.append_assoc] at heq
  rcases exists_eq_append_of_byteSize_le heq hle with ⟨between, rfl, rfl⟩
  exact ⟨between, rest, by simp, byteSize_append front between⟩

theorem standsAt_shift_iff {front text token : Text} {offset : Nat} :
    StandsAt (front ++ text) (byteSize front + offset) token ↔ StandsAt text offset token := by
  refine ⟨fun h => ?_, fun h => h.shift front⟩
  obtain ⟨between, rest, heq, hsize⟩ := h.behind (Nat.le_add_right _ _)
  exact ⟨between, rest, heq, (Nat.add_left_cancel hsize).symm⟩

/-- The first place of a token behind another place is the one with the least offset. -/
theorem isLeast_standsAt_iff {front back token : Text} {offset : Nat} :
    IsLeast {place | byteSize front ≤ place ∧ StandsAt (front ++ back) place token} offset ↔
      ∃ between rest, cutToken? token back = some (between, rest) ∧
        offset = byteSize front + byteSize between := by
  have hstands : ∀ {between rest}, cutToken? token back = some (between, rest) →
      StandsAt (front ++ back) (byteSize front + byteSize between) token := by
    intro between rest hcut
    rw [eq_of_cutToken? hcut]
    exact ⟨front ++ between, rest, by simp, byteSize_append front between⟩
  have hfirst : ∀ {between rest place}, cutToken? token back = some (between, rest) →
      byteSize front ≤ place → StandsAt (front ++ back) place token →
      byteSize front + byteSize between ≤ place := by
    intro between rest place hcut hle hplace
    -- The cut is the shortest one; offsets count bytes, so the shorter text has to be a prefix
    -- of the longer one before their sizes can be compared.
    rcases hplace.behind hle with ⟨between', rest', hback, rfl⟩
    have hlength : between.length ≤ between'.length := length_le_of_cutToken? (hback ▸ hcut)
    have htext := eq_of_cutToken? hcut
    rw [hback, List.append_assoc, List.append_assoc] at htext
    rcases List.prefix_of_prefix_length_le ⟨_, htext.symm⟩ ⟨_, rfl⟩ hlength with ⟨more, rfl⟩
    rw [byteSize_append]
    omega
  constructor
  · rintro ⟨⟨hle, hplace⟩, hleast⟩
    rcases hplace.behind hle with ⟨between', rest', hback, -⟩
    rcases cutToken?_isSome_of_infix ⟨between', rest', hback.symm⟩ with ⟨between, rest, hcut⟩
    refine ⟨between, rest, hcut, Nat.le_antisymm ?_ (hfirst hcut hle hplace)⟩
    exact hleast ⟨Nat.le_add_right _ _, hstands hcut⟩
  · rintro ⟨between, rest, hcut, rfl⟩
    refine ⟨⟨Nat.le_add_right _ _, hstands hcut⟩, ?_⟩
    rintro place ⟨hle, hplace⟩
    exact hfirst hcut hle hplace

/-! ## Slices -/

/-- Cuts a text behind the characters that begin in its first bytes. -/
def cutBytes : Nat → Text → Text × Text
  | 0, text => ([], text)
  | _ + 1, [] => ([], [])
  | size + 1, c :: text =>
      let (front, back) := cutBytes (size + 1 - c.utf8Size) text
      (c :: front, back)

def slice (text : Text) (start stop : Nat) : Text :=
  (cutBytes (stop - start) (cutBytes start text).2).1

theorem cutBytes_append (front back : Text) :
    cutBytes (byteSize front) (front ++ back) = (front, back) := by
  induction front with
  | nil => cases back <;> rfl
  | cons c front ih =>
      have hpos := c.utf8Size_pos
      obtain ⟨size, hsize⟩ : ∃ size, byteSize (c :: front) = size + 1 :=
        ⟨c.utf8Size + byteSize front - 1, by rw [byteSize_cons]; omega⟩
      have hrest : size + 1 - c.utf8Size = byteSize front := by
        rw [byteSize_cons] at hsize
        omega
      rw [hsize, List.cons_append, cutBytes, hrest, ih]

theorem slice_append (front part back : Text) :
    slice (front ++ part ++ back) (byteSize front) (byteSize front + byteSize part) = part := by
  rw [slice, List.append_assoc, cutBytes_append, Nat.add_sub_cancel_left, cutBytes_append]

theorem slice_append_slice {text : Text} {start middle stop : Nat} (hstart : IsBoundary text start)
    (hmiddle : IsBoundary text middle) (hstop : IsBoundary text stop) (hle : start ≤ middle)
    (hle' : middle ≤ stop) :
    slice text start middle ++ slice text middle stop = slice text start stop := by
  rcases hstart with ⟨front, back, rfl, rfl⟩
  rcases hmiddle with ⟨front', back', heq, rfl⟩
  rcases exists_eq_append_of_byteSize_le heq hle with ⟨first, rfl, rfl⟩
  rcases hstop with ⟨front'', rest, heq', rfl⟩
  rw [← List.append_assoc] at heq'
  rcases exists_eq_append_of_byteSize_le heq' hle' with ⟨second, rfl, rfl⟩
  have hfirst := slice_append front first (second ++ rest)
  have hsecond := slice_append (front ++ first) second rest
  have hboth := slice_append front (first ++ second) rest
  simp only [byteSize_append, List.append_assoc, Nat.add_assoc] at hfirst hsecond hboth ⊢
  rw [hfirst, hsecond, hboth]

end TagTemplate.Text
