import TagTemplate.Text.Basic

/-!
# Delimiters

A pair of texts that enclose tags.  Neither is empty, so a text between delimiters is
always shorter than the text with them.  Blanks may stand before a closing delimiter;
`afterBlanks` lists the ways to read them, since a delimiter may start with a blank.
-/

namespace TagTemplate

structure Delimiters where
  opening : Text
  closing : Text
  opening_ne_nil : opening ≠ []
  closing_ne_nil : closing ≠ []

namespace Text

/-- The ways to read blanks and then a token, more blanks first: the blanks that were
read and what follows the token. -/
def afterBlanks (token : Text) : Text → List (Text × Text)
  | [] => ((after? token []).map fun rest => ([], rest)).toList
  | c :: text =>
      let here := ((after? token (c :: text)).map fun rest => ([], rest)).toList
      if isBlank c then
        ((afterBlanks token text).map fun (blanks, rest) => (c :: blanks, rest)) ++ here
      else here

theorem eq_of_mem_afterBlanks {token text blanks rest : Text}
    (h : (blanks, rest) ∈ afterBlanks token text) :
    text = blanks ++ token ++ rest ∧ ∀ c ∈ blanks, isBlank c = true := by
  induction text generalizing blanks with
  | nil =>
      simp only [afterBlanks, Option.mem_toList, Option.map_eq_some_iff, Prod.mk.injEq] at h
      obtain ⟨_, h, rfl, rfl⟩ := h
      simpa using after?_eq_some_iff.1 h
  | cons c text ih =>
      have here : (blanks, rest) ∈
          ((after? token (c :: text)).map fun rest => (([] : Text), rest)).toList →
          c :: text = blanks ++ token ++ rest ∧ ∀ c ∈ blanks, isBlank c = true := by
        intro hmem
        simp only [Option.mem_toList, Option.map_eq_some_iff, Prod.mk.injEq] at hmem
        obtain ⟨_, hafter, rfl, rfl⟩ := hmem
        simpa using after?_eq_some_iff.1 hafter
      simp only [afterBlanks] at h
      split at h
      · rename_i hblank
        rcases List.mem_append.1 h with h | h
        · obtain ⟨⟨more, rest'⟩, hmem, heq⟩ := List.mem_map.1 h
          simp only [Prod.mk.injEq] at heq
          obtain ⟨rfl, rfl⟩ := heq
          obtain ⟨htext, hblanks⟩ := ih hmem
          refine ⟨by rw [htext]; rfl, ?_⟩
          intro d hd
          rcases List.mem_cons.1 hd with hd | hd
          · rw [hd]
            exact hblank
          · exact hblanks d hd
        · exact here h
      · exact here h

end Text

end TagTemplate
