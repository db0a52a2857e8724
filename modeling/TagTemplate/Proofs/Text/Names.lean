import Mathlib.Tactic.ByContra
import TagTemplate.Text.Quoted
import TagTemplate.Text.Word

/-!
# Names

Letters, digits and the underscore of the ASCII range make up the names of variables and
of filters.  None of them is a blank or a quote, and no blank is a word character of any
script.
-/

namespace TagTemplate

variable {c : Char}

theorem toNat_of_isAsciiWord (h : isAsciiWord c = true) :
    (48 ≤ c.toNat ∧ c.toNat ≤ 57) ∨ (65 ≤ c.toNat ∧ c.toNat ≤ 90) ∨ c.toNat = 95 ∨
      (97 ≤ c.toNat ∧ c.toNat ≤ 122) := by
  have hranges : (decide (c.val ≥ 65 ∧ c.val ≤ 90) || decide (c.val ≥ 97) && decide (c.val ≤ 122) ||
      decide (c.val ≥ 48) && decide (c.val ≤ 57) || c == '_') = true := h
  simp only [Bool.or_eq_true, Bool.and_eq_true, decide_eq_true_eq, beq_iff_eq, ge_iff_le,
    UInt32.le_iff_toNat_le] at hranges
  rcases hranges with ((hupper | hlower) | hdigit) | rfl
  · exact .inr (.inl hupper)
  · exact .inr (.inr (.inr hlower))
  · exact .inl hdigit
  · decide

theorem isWord_of_isAsciiWord (h : isAsciiWord c = true) : isWord c = true := by
  have hrange := toNat_of_isAsciiWord h
  rw [isWord_of_ascii (by omega), h]

def blankCodes : List Nat :=
  [0x9, 0xa, 0xb, 0xc, 0xd, 0x20, 0x85, 0xa0, 0x1680, 0x2000, 0x2001, 0x2002, 0x2003, 0x2004,
    0x2005, 0x2006, 0x2007, 0x2008, 0x2009, 0x200a, 0x2028, 0x2029, 0x202f, 0x205f, 0x3000]

theorem isWord_of_isBlank (h : isBlank c = true) : isWord c = false := by
  have hcode : c.toNat ∈ blankCodes := by
    simp only [isBlank, Bool.or_eq_true, Bool.and_eq_true, decide_eq_true_eq, beq_iff_eq] at h
    simp only [blankCodes, List.mem_cons, List.not_mem_nil, or_false]
    omega
  have hall : ∀ code ∈ blankCodes, isWord (Char.ofNat code) = false := by decide +kernel
  rw [← Char.ofNat_toNat c]
  exact hall c.toNat hcode

theorem isBlank_of_isAsciiWord (h : isAsciiWord c = true) : isBlank c = false := by
  have hrange := toNat_of_isAsciiWord h
  simp only [isBlank, Bool.or_eq_false_iff, Bool.and_eq_false_iff, decide_eq_false_iff_not,
    beq_eq_false_iff_ne]
  omega

theorem isQuote_of_isAsciiWord (h : isAsciiWord c = true) : Text.isQuote c = false := by
  by_contra hquote
  rw [Bool.not_eq_false, Text.isQuote, Bool.or_eq_true, beq_iff_eq, beq_iff_eq] at hquote
  rcases hquote with rfl | rfl
  · exact absurd h (by decide)
  · exact absurd h (by decide)

/-- The name of a variable starts with a letter. -/
def IsName (name : Text) : Prop :=
  name.head?.any Char.isAlpha = true ∧ ∀ c ∈ name, isAsciiWord c = true

instance (name : Text) : Decidable (IsName name) :=
  have := List.decidableBAll (fun c => isAsciiWord c = true) name
  instDecidableAnd

theorem IsName.ne_nil {name : Text} (h : IsName name) : name ≠ [] := by
  rintro rfl
  cases h.1

theorem IsName.not_mem {name : Text} (h : IsName name) (hc : isAsciiWord c = false) :
    c ∉ name := by
  intro hmem
  rw [h.2 c hmem] at hc
  cases hc

end TagTemplate
