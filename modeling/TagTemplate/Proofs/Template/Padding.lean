import TagTemplate.Proofs.Template.Edges

/-!
# Padding

A token of two different characters is counted once for each place where the first
character stands before the second one.  So putting texts together adds to the count
only at the seam, and code of the standard compiler is padded behind exactly where it ends
with the brace that the percent sign of the target delimiter would complete.
-/

namespace TagTemplate.Compiler

open Text

variable {c d : Char}

theorem borderless_pair (hne : c ≠ d) : Borderless [c, d] := by
  intro part hbegins hends hpart
  obtain ⟨e, part, rfl⟩ := List.exists_cons_of_ne_nil hpart
  obtain ⟨rfl, hrest⟩ := List.cons_prefix_cons.1 hbegins
  rcases List.suffix_cons_iff.1 hends with heq | hinside
  · exact heq
  · have hmem := List.mem_singleton.1 (hinside.subset List.mem_cons_self)
    exact absurd hmem hne

theorem occursAt_pair_zero {e : Char} {text : Text} :
    OccursAt [c, d] (e :: text) 0 ↔ e = c ∧ text.head? = some d := by
  rw [occursAt_zero, List.cons_prefix_cons, eq_comm]
  cases text with
  | nil => simp
  | cons f text => simp [eq_comm]

theorem countFrom_pair_cons (hne : c ≠ d) (e : Char) (text : Text) :
    countFrom [c, d] 0 (e :: text) =
      (if e = c ∧ text.head? = some d then 1 else 0) + countFrom [c, d] 0 text := by
  rw [countFrom_cons (borderless_pair hne)]
  simp only [occursAt_pair_zero]

/-- A pair comes about at the seam of two texts or stands in one of them. -/
theorem countFrom_pair_append (hne : c ≠ d) (front back : Text) :
    countFrom [c, d] 0 (front ++ back) = countFrom [c, d] 0 front + countFrom [c, d] 0 back +
      if front.getLast? = some c ∧ back.head? = some d then 1 else 0 := by
  induction front with
  | nil => simp [countFrom]
  | cons e front ih =>
      rw [List.cons_append, countFrom_pair_cons hne, countFrom_pair_cons hne e front, ih]
      cases front with
      | nil =>
          have hend : countFrom [c, d] 0 [] = 0 := rfl
          simp only [List.nil_append, List.head?_nil, List.getLast?_nil, List.getLast?_singleton,
            Option.some.injEq, reduceCtorEq, and_false, false_and, if_false, hend]
          omega
      | cons f front =>
          have hhead : (f :: front ++ back).head? = (f :: front).head? := rfl
          rw [hhead, List.getLast?_cons_cons]
          omega

theorem countDelimiters_append (front back : Text) :
    countDelimiters Config.standard (front ++ back) =
      countDelimiters Config.standard front + countDelimiters Config.standard back +
        ((if front.getLast? = some '\x7b' ∧ back.head? = some '%' then 1 else 0) +
          if front.getLast? = some '%' ∧ back.head? = some '\x7d' then 1 else 0) := by
  have hopen := countFrom_pair_append (show '\x7b' ≠ '%' by decide) front back
  have hclose := countFrom_pair_append (show '%' ≠ '\x7d' by decide) front back
  have hboth : ∀ text, countDelimiters Config.standard text =
      countFrom ['\x7b', '%'] 0 text + countFrom ['%', '\x7d'] 0 text := fun _ => rfl
  rw [hboth, hboth, hboth]
  omega

/-- Code is padded behind if it ends with the brace that begins an opening delimiter. -/
theorem backPad_standard (code : Text) :
    backPad Config.standard code = if code.getLast? = some '\x7b' then [' '] else [] := by
  have hcount := countDelimiters_append code Config.standard.targetClose
  have hclose : countDelimiters Config.standard Config.standard.targetClose = 0 := by decide
  have hhead : Config.standard.targetClose.head? = some '%' := by decide
  rw [hclose, hhead] at hcount
  unfold backPad
  by_cases hlast : code.getLast? = some '\x7b'
  · rw [if_pos hlast, if_pos]
    rw [hcount, if_pos ⟨hlast, rfl⟩]
    omega
  · rw [if_neg hlast, if_neg]
    rw [hcount, if_neg (by simp [hlast]), if_neg (by simp)]
    omega

end TagTemplate.Compiler
