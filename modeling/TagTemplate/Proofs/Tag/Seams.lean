import TagTemplate.Proofs.Tag.FragmentLaw
import TagTemplate.Proofs.Text.Pair

/-!
# Seams in the code of tags

A tag reaches its expression by dropping dollar signs, and nothing else on the way from
the body to the code can bring an opening brace and a percent sign together, except a
call that `Expression.JoinsCall` describes.  So the opening delimiters that tags assemble
come from a dollar sign between the two characters (`Reading.apart_expression`) or from
such a call (`apartLaw`).
-/

namespace TagTemplate

open Text

/-! ## From the body to the expression -/

theorem Operator.apart_rewrite {expression : Text} (h : Apart '\x7b' '%' expression) :
    Apart '\x7b' '%' (Operator.rewrite expression) := by
  have hkeeps : Keeps '\x7b' '%' expression (Operator.rewrite expression) := by
    apply Operator.rewrite_rel (Keeps.refl '\x7b' '%') Keeps.append
    intro entry _
    apply Keeps.of_firm
    cases entry.2 <;> decide
  exact hkeeps.apart h

theorem Operator.not_mem_rewrite {expression : Text} (h : '$' ∉ expression) :
    '$' ∉ Operator.rewrite expression := by
  have hmem : ∀ c ∈ Operator.rewrite expression, c ≠ '$' := by
    apply Operator.mem_rewrite
    · rintro c hc rfl
      exact h hc
    · rintro entry _ c hc rfl
      exact absurd (CodeLaw.isFixedChar_of_mem_symbol hc) (by decide)
  exact fun hc => hmem _ hc rfl

namespace Sigil

theorem keeps_normalize {metaMark : Text} (hmark : Shut '\x7b' '%' ('.' :: metaMark))
    (raw : Text) : Keeps '\x7b' '%' (dropDollars raw) (normalize metaMark raw) := by
  have hfirm : Firm '\x7b' '%' ('.' :: metaMark) :=
    ⟨hmark, List.cons_ne_nil _ _, by simp⟩
  induction raw with
  | nil => exact Keeps.refl _ _ []
  | cons c raw ih =>
      by_cases hdollar : c = '$'
      · simpa [dropDollars, normalize, hdollar] using ih
      · have hdrop : dropDollars (c :: raw) = [c] ++ dropDollars raw := by
          simp [dropDollars, hdollar]
        rw [hdrop]
        by_cases hat : c = '@'
        · have hsteps : normalize metaMark (c :: raw) =
              ('.' :: metaMark) ++ normalize metaMark raw := by
            simp [normalize, hat]
          rw [hsteps]
          exact (Keeps.of_firm hfirm).append ih
        · have hsteps : normalize metaMark (c :: raw) = [c] ++ normalize metaMark raw := by
            simp [normalize, hdollar, hat]
          rw [hsteps]
          exact (Keeps.refl _ _ [c]).append ih

/-- The sigils of a text are gone once they are normalized. -/
theorem not_mem_normalize {metaMark : Text} {c : Char} (hc : c = '$' ∨ c = '@')
    (hmark : c ∉ metaMark) (raw : Text) : c ∉ normalize metaMark raw := by
  induction raw with
  | nil => simp [normalize]
  | cons d raw ih =>
      simp only [normalize]
      split
      · exact ih
      · rename_i hdollar
        split
        · rcases hc with rfl | rfl <;> simp [hmark, ih]
        · rename_i hat
          rcases hc with rfl | rfl <;> simp [ih, Ne.symm hdollar, Ne.symm hat]

theorem dropDollars_eq_self {text : Text} (h : '$' ∉ text) : dropDollars text = text := by
  apply List.filter_eq_self.2
  intro c hc
  have hne : c ≠ '$' := by
    rintro rfl
    exact h hc
  simpa using hne

end Sigil

namespace Reading

/-- The expression has an opening delimiter only if the body has one between whose
characters there are dollar signs or nothing. -/
theorem apart_expression {metaMark body : Text} (hmark : Shut '\x7b' '%' ('.' :: metaMark))
    (hkind : (ofBody metaMark body).kind ≠ .endTag)
    (h : Apart '\x7b' '%' (Sigil.dropDollars body)) :
    Apart '\x7b' '%' (ofBody metaMark body).expression := by
  have hpart : ∀ {part : Text}, part <:+: body →
      Apart '\x7b' '%' (Sigil.normalize metaMark part) :=
    fun hpart => (Sigil.keeps_normalize hmark _).apart (h.of_isInfix (hpart.filter _))
  have hexpression : (ofBody metaMark body).expression =
      Sigil.normalize metaMark (raw body).2 := rfl
  rw [hexpression]
  rcases raw_expression hkind with heq | ⟨words, hsuffix, heq⟩
  · rw [heq]
    exact hpart (trim_isInfix body)
  · rw [heq]
    have hwords : ∀ word ∈ words, word <:+: body :=
      fun word hword => isInfix_of_mem_words (hsuffix.subset hword)
    clear hsuffix heq
    induction words with
    | nil => exact shut_nil.1
    | cons word words ih =>
        have hword := hpart (hwords word List.mem_cons_self)
        have htail := ih fun other hother => hwords other (List.mem_cons_of_mem word hother)
        cases words with
        | nil =>
            rw [ofWords, List.intercalate_singleton]
            exact hword
        | cons next others =>
            rw [ofWords, List.intercalate_cons_cons, Sigil.normalize_append,
              Sigil.normalize_append]
            exact (hword.append (show Firm '\x7b' '%' [' '] by decide)).append htail

end Reading

/-! ## From the expression to the code -/

/-- No fixed word begins with a percent sign, so a text without an opening delimiter
stays without one if it ends with a fixed word. -/
theorem apart_append_fixed {text word : Text} (h : Apart '\x7b' '%' text)
    (hword : ∀ c ∈ word, isFixedChar c = true) : Apart '\x7b' '%' (text ++ word) := by
  have hpercent : '%' ∉ word := fun hmem => absurd (hword _ hmem) (by decide)
  refine apart_append.2 ⟨h, apart_of_not_mem_right hpercent, ?_⟩
  rintro ⟨-, hhead⟩
  exact hpercent (List.mem_of_head? hhead)

/-- Target code has no opening delimiter, unless a call is joined to one. -/
theorem apartLaw : CodeLaw (fun text => '$' ∉ text ∧ Apart '\x7b' '%' text)
    (fun _ _ text => Apart '\x7b' '%' text) (fun _ _ text => Shut '\x7b' '%' text) False where
  part := fun h hpart => ⟨fun hmem => h.1 (hpart.subset hmem), h.2.of_isInfix hpart⟩
  symbols := fun h => ⟨Operator.not_mem_rewrite h.1, Operator.apart_rewrite h.2⟩
  dollars := by
    intro text h
    rw [Sigil.dropDollars_eq_self h.1]
    exact h
  nil := fun _ => shut_nil
  ofPiece := fun h _ => h.2
  ofSealed := fun h => h.1
  append := fun hfront hback => hfront.append hback
  appendSealed := fun hfront hback => hfront.append_shut hback
  fixed := fun h hword _ => apart_append_fixed h hword
  sealing := by
    intro start middle stop text word h hword _ hne hlast
    refine ⟨apart_append_fixed h hword, ?_⟩
    rw [List.getLast?_append_of_ne_nil _ hne]
    exact hlast
  trim := fun h depth => (h depth).of_isInfix (trim_isInfix _)
  path := by
    intro text part _ hchars hpart depth
    apply apart_of_not_mem_left
    intro hmem
    rcases hchars _ (hpart _ hmem) with hchar | hdot
    · exact absurd hchar (by decide +kernel)
    · exact absurd hdot (by decide)
  call := by
    intro start middle stop front code hfront hcode hne hjoin
    refine ⟨apart_append.2 ⟨hfront, hcode.1, fun hseam => hjoin hseam.1 hseam.2⟩, ?_⟩
    rw [List.getLast?_append_of_ne_nil _ hne]
    exact hcode.2

namespace Kind

theorem compile_isInfix_fragment {kind : Kind} {metaMark expression compiled : Text}
    (h : compiled ∈ kind.compiled? expression) :
    Expression.compile compiled <:+: kind.fragment metaMark expression := by
  cases kind with
  | ifTag | elseIfTag =>
      obtain rfl := Option.some.inj h
      exact List.infix_append _ _ _
  | calcTag =>
      obtain rfl := Option.some.inj h
      exact List.infix_append_left
  | printTag =>
      obtain rfl := Option.some.inj h
      unfold fragment Fragment.print
      dsimp only
      split
      · rename_i hempty
        rw [List.isEmpty_iff.1 hempty]
      · split
        · exact List.infix_append _ _ _
        · exact List.infix_append _ _ _
  | elseTag | endTag | foreachTag | sectionTag | assignTag | breakTag => cases h

end Kind

/-- If dropping the dollar signs of a body brings no opening delimiter together, then the
code holds one exactly when it has a call whose code begins with the percent sign and
which stands behind an opening brace. -/
theorem Reading.apart_fragment_iff {metaMark body : Text}
    (hmark : Shut '\x7b' '%' ('.' :: metaMark)) (hsigil : '$' ∉ metaMark)
    (h : Apart '\x7b' '%' (Sigil.dropDollars body)) :
    Apart '\x7b' '%' ((ofBody metaMark body).fragment metaMark) ↔
      ∀ compiled ∈ (ofBody metaMark body).kind.compiled? (ofBody metaMark body).expression,
        ¬ Expression.JoinsCall compiled := by
  constructor
  · intro hapart compiled hcompiled hjoin
    have hpart := hapart.of_isInfix (Kind.compile_isInfix_fragment hcompiled)
    exact apart_iff.1 hpart (Expression.isInfix_compile_of_joinsCall hjoin)
  · intro hjoin
    have hpiece : '$' ∉ metaMark ∧ Apart '\x7b' '%' metaMark :=
      ⟨hsigil, hmark.1.of_isInfix (List.suffix_cons '.' metaMark).isInfix⟩
    refine apartLaw.fragment _ hpiece ?_ hjoin 0
    intro hkind
    exact ⟨Sigil.not_mem_normalize (.inl rfl) hsigil _, apart_expression hmark hkind h⟩

end TagTemplate
