import TagTemplate.Proofs.Text.Trim

/-!
# The depth of braces

Read from left to right, an opening brace leads one block down and a closing brace one
block up.  `depth?` follows a text on this way; it fails where a block is closed that was
never opened.  The depth it ends at tells how the numbers of the two braces differ.
-/

namespace TagTemplate.Text

/-- The depth of blocks behind a text that is entered at a given depth.  A text that
closes more blocks than are open has none. -/
def depth? : Nat → Text → Option Nat
  | depth, [] => some depth
  | depth, c :: text =>
      if c = '\x7b' then depth? (depth + 1) text
      else if c = '\x7d' then
        if depth = 0 then none else depth? (depth - 1) text
      else depth? depth text

theorem depth?_append (depth : Nat) (front back : Text) :
    depth? depth (front ++ back) = (depth? depth front).bind fun middle => depth? middle back := by
  induction front generalizing depth with
  | nil => rfl
  | cons c front ih =>
      rw [List.cons_append, depth?, depth?]
      split
      · exact ih (depth + 1)
      · split
        · split
          · rfl
          · exact ih (depth - 1)
        · exact ih depth

/-- A text makes sense wherever the blocks that it closes are open. -/
theorem depth?_add {start stop : Nat} {text : Text} (h : depth? start text = some stop)
    (depth : Nat) : depth? (depth + start) text = some (depth + stop) := by
  induction text generalizing start with
  | nil =>
      obtain rfl := Option.some.inj h
      rfl
  | cons c text ih =>
      rw [depth?] at h ⊢
      split at h
      · rename_i hopen
        rw [if_pos hopen]
        exact ih h
      · rename_i hopen
        rw [if_neg hopen]
        split at h
        · rename_i hclose
          split at h
          · cases h
          · rename_i hpos
            have hrest := ih h
            rw [if_pos hclose, if_neg (by omega), Nat.add_sub_assoc (by omega)]
            exact hrest
        · rename_i hclose
          rw [if_neg hclose]
          exact ih h

def Braceless (text : Text) : Prop :=
  '\x7b' ∉ text ∧ '\x7d' ∉ text

instance (text : Text) : Decidable (Braceless text) :=
  inferInstanceAs (Decidable ('\x7b' ∉ text ∧ '\x7d' ∉ text))

theorem Braceless.depth?_eq {text : Text} (h : Braceless text) (depth : Nat) :
    depth? depth text = some depth := by
  induction text with
  | nil => rfl
  | cons c text ih =>
      obtain ⟨hopen, hclose⟩ := h
      rw [List.mem_cons, not_or] at hopen hclose
      rw [depth?, if_neg (Ne.symm hopen.1), if_neg (Ne.symm hclose.1)]
      exact ih ⟨hopen.2, hclose.2⟩

theorem braceless_of_allBlank {text : Text} (h : AllBlank text) : Braceless text := by
  constructor
  · intro hmem
    exact absurd (h _ hmem) (by decide)
  · intro hmem
    exact absurd (h _ hmem) (by decide)

/-- The depth at the end tells how many braces there are of each kind. -/
theorem count_of_depth? {start stop : Nat} {text : Text} (h : depth? start text = some stop) :
    start + text.count '\x7b' = stop + text.count '\x7d' := by
  induction text generalizing start with
  | nil =>
      obtain rfl := Option.some.inj h
      rfl
  | cons c text ih =>
      rw [depth?] at h
      split at h
      · rename_i hopen
        have htail := ih h
        simp only [hopen, List.count_cons_self,
          List.count_cons_of_ne (show '\x7b' ≠ '\x7d' by decide)]
        omega
      · rename_i hopen
        split at h
        · rename_i hclose
          split at h
          · cases h
          · have htail := ih h
            simp only [hclose, List.count_cons_self,
              List.count_cons_of_ne (show '\x7d' ≠ '\x7b' by decide)]
            omega
        · rename_i hclose
          have htail := ih h
          rw [List.count_cons_of_ne hopen, List.count_cons_of_ne hclose]
          exact htail

/-- On the way no more blocks are closed than are open. -/
theorem count_le_of_depth? {start stop : Nat} {front text : Text}
    (h : depth? start text = some stop) (hfront : front <+: text) :
    front.count '\x7d' ≤ start + front.count '\x7b' := by
  obtain ⟨back, rfl⟩ := hfront
  rw [depth?_append] at h
  obtain ⟨middle, hmiddle, -⟩ := Option.bind_eq_some_iff.1 h
  have hcount := count_of_depth? hmiddle
  omega

end TagTemplate.Text
