import TagTemplate.Expression.Operator
import TagTemplate.Proofs.Text.Pieces

/-!
# What the rewriting of word operators keeps

A text and its rewriting are the same piece by piece, except that a word of the table
stands against the symbol of its operator.  A relation between texts that holds of equal
texts and of every word with its symbol, and that goes along with putting texts together,
therefore holds between a text and its rewriting (`rewrite_rel`).
-/

namespace TagTemplate

namespace Operator

open Text

theorem mem_wordTable {word : Text} {operator : Operator} (h : ofWord? word = some operator) :
    (word, operator) ∈ wordTable := by
  obtain ⟨front, back, heq, -⟩ := List.lookup_eq_some_iff.1 h
  rw [heq]
  exact List.mem_append_right front List.mem_cons_self

/-- What is true of six characters is true of those of the symbols. -/
theorem all_symbol (p : Char → Bool) (h : "=!<>&|".toList.all p = true) {operator : Operator}
    {c : Char} (hc : c ∈ operator.symbol) : p c = true := by
  have hsymbol : (operator.symbol.all fun d => "=!<>&|".toList.contains d) = true := by
    cases operator <;> decide
  have hmem := List.all_eq_true.1 hsymbol c hc
  exact List.all_eq_true.1 h c (List.contains_iff_mem.1 hmem)

variable {r : Text → Text → Prop}

theorem symbolize_rel (refl : ∀ text, r text text)
    (symbol : ∀ entry ∈ wordTable, r entry.1 entry.2.symbol) (word : Text) :
    r word (symbolize word) := by
  unfold symbolize
  cases hword : ofWord? word with
  | none => exact refl word
  | some operator => exact symbol (word, operator) (mem_wordTable hword)

theorem symbolizeRun_rel (refl : ∀ text, r text text)
    (append : ∀ {front front' back back'}, r front front' → r back back' →
      r (front ++ back) (front' ++ back'))
    (symbol : ∀ entry ∈ wordTable, r entry.1 entry.2.symbol) (run : Text) :
    r run (symbolizeRun run) := by
  fun_induction symbolizeRun run with
  | case1 => exact refl []
  | case2 c text hword ih =>
      have hstep := append (symbolize_rel refl symbol (c :: text.takeWhile isWord)) ih
      rwa [List.cons_append, List.takeWhile_append_dropWhile] at hstep
  | case3 c text hword ih => exact append (refl [c]) ih

theorem rewrite_rel (refl : ∀ text, r text text)
    (append : ∀ {front front' back back'}, r front front' → r back back' →
      r (front ++ back) (front' ++ back'))
    (symbol : ∀ entry ∈ wordTable, r entry.1 entry.2.symbol) (expression : Text) :
    r expression (rewrite expression) := by
  rw [rewrite]
  induction expression using pieces.induct with
  | case1 =>
      rw [mapOutside_nil]
      exact refl []
  | case2 c text hquote ih =>
      have hstep := append (refl (c :: (takeLiteral c text).1)) ih
      rwa [← mapOutside_of_isQuote hquote, List.cons_append, takeLiteral_append] at hstep
  | case3 c text hquote ih =>
      have hrun := symbolizeRun_rel refl append symbol (c :: text.takeWhile fun d => !isQuote d)
      have hstep := append hrun ih
      rwa [← mapOutside_of_bare hquote, List.cons_append, List.takeWhile_append_dropWhile] at hstep

theorem mem_rewrite {p : Char → Prop} {expression : Text} (h : ∀ c ∈ expression, p c)
    (hsymbol : ∀ entry ∈ wordTable, ∀ c ∈ entry.2.symbol, p c) :
    ∀ c ∈ rewrite expression, p c := by
  refine rewrite_rel (r := fun before after => (∀ c ∈ before, p c) → ∀ c ∈ after, p c)
    (fun _ h => h) ?_ (fun entry hentry _ => hsymbol entry hentry) expression h
  intro front front' back back' hfront hback h c hc
  rcases List.mem_append.1 hc with hc | hc
  · exact hfront (fun d hd => h d (List.mem_append_left back hd)) c hc
  · exact hback (fun d hd => h d (List.mem_append_right front hd)) c hc

end Operator

end TagTemplate
