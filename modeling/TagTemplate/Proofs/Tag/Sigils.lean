import TagTemplate.Proofs.Tag.Metadata

/-!
# Sigils

A tag body is read before its sigils are gone, so a dollar sign can hide a keyword or be a word
of its own.  Where it can do neither, the body is read as it would be without its dollar signs
(`Reading.ofBody_dropDollars`), and compiled to the same code.  No sigil gets into the code of a
tag, unless it stands in the metadata mark (`Compiler.compileTag_sigils`).
-/

namespace TagTemplate

open Text

/-- Without its dollar signs the body has as many words as with them, and the same words at its
start, as far as these are looked at for a keyword. -/
structure Sigil.Optional (body : Text) : Prop where
  solid : ∀ word ∈ words body, ∃ c ∈ word, c ≠ '$'
  first : ∀ first ∈ (words body).head?, '$' ∉ first
  second : ∀ second rest, words body = Kind.elseTag.name :: second :: rest → '$' ∉ second

namespace Sigil

theorem isBlank_ne_dollar {c : Char} (h : isBlank c = true) : (c != '$') = true := by
  rw [bne_iff_ne]
  rintro rfl
  exact absurd h (by decide)

namespace Optional

variable {body : Text}

theorem words_dropDollars (h : Optional body) :
    words (dropDollars body) = (words body).map dropDollars :=
  words_filter (fun _ => isBlank_ne_dollar) fun word hword => by simpa using h.solid word hword

theorem trim_dropDollars (h : Optional body) :
    trim (dropDollars body) = dropDollars (trim body) :=
  trim_filter (fun _ => isBlank_ne_dollar) fun word hword => by simpa using h.solid word hword

end Optional

theorem normalize_ofWords_dropDollars (metaMark : Text) (list : List Text) :
    normalize metaMark (ofWords (list.map dropDollars)) = normalize metaMark (ofWords list) := by
  have hword : normalize metaMark ∘ dropDollars = normalize metaMark :=
    funext (normalize_dropDollars metaMark)
  rw [normalize_ofWords, List.map_map, hword, ← normalize_ofWords]

end Sigil

namespace Reading

theorem isBlank_of_isPlainChar {c : Char} (h : isPlainChar c = true) : isBlank c = false := by
  simp only [isPlainChar, Bool.or_eq_true, beq_iff_eq] at h
  rcases h with ((((h | rfl) | rfl) | rfl) | rfl) | rfl
  · exact isBlank_of_isAsciiWord (by simp [isAsciiWord, h])
  all_goals decide

theorem ofShape_of_not_plain {body : Text} (h : ¬ body.all isPlainChar = true) :
    ofShape body =
      if body.head? = some '/' then (.endTag, "\x7d".toList)
      else if body.contains '=' = true then (.calcTag, body)
      else (.printTag, body) := by
  rw [ofShape, if_neg (by simp [h])]

variable {body : Text} (metaMark : Text)

/-- A body of plain characters is a single word.  Any other is told by its first character and
by whether it has an equals sign. -/
theorem ofShape_dropDollars (htrim : Trimmed body)
    (hfirst : ∀ first ∈ (words body).head?, '$' ∉ first) :
    (ofShape (Sigil.dropDollars body)).1 = (ofShape body).1 ∧
      Sigil.normalize metaMark (ofShape (Sigil.dropDollars body)).2 =
        Sigil.normalize metaMark (ofShape body).2 := by
  cases body with
  | nil => exact ⟨rfl, rfl⟩
  | cons c rest =>
      have hc : isBlank c = false := htrim.first c rfl
      by_cases hplain : (c :: rest).all isPlainChar = true
      · rw [List.all_eq_true] at hplain
        have hword : Unbroken (c :: rest) :=
          ⟨List.cons_ne_nil c rest, fun d hd => isBlank_of_isPlainChar (hplain d hd)⟩
        have hdollar : '$' ∉ c :: rest := hfirst (c :: rest) (by rw [hword.words]; rfl)
        rw [Sigil.dropDollars_eq_self hdollar]
        exact ⟨rfl, rfl⟩
      · have hplain' : ¬ (Sigil.dropDollars (c :: rest)).all isPlainChar = true := by
          rw [List.all_eq_true]
          intro hall
          refine hplain (List.all_eq_true.2 fun d hd => ?_)
          by_cases hdollar : d = '$'
          · rw [hdollar]
            decide
          · exact hall d (List.mem_filter.2 ⟨hd, by simpa using hdollar⟩)
        have hhead : (Sigil.dropDollars (c :: rest)).head? = (c :: rest).head? := by
          have hnot := hfirst _ (by rw [words_cons, if_neg (by simp [hc])]; rfl)
          rw [List.mem_cons, not_or] at hnot
          rw [Sigil.dropDollars, List.filter_cons_of_pos (by simpa using Ne.symm hnot.1)]
          rfl
        have hequals : (Sigil.dropDollars (c :: rest)).contains '=' = (c :: rest).contains '=' := by
          rw [Bool.eq_iff_iff, List.contains_iff_mem, List.contains_iff_mem, Sigil.dropDollars,
            List.mem_filter]
          exact and_iff_left (by decide)
        have hnormal := Sigil.normalize_dropDollars metaMark (c :: rest)
        rw [ofShape_of_not_plain hplain', ofShape_of_not_plain hplain, hhead, hequals]
        split
        · exact ⟨rfl, rfl⟩
        · split
          · exact ⟨rfl, hnormal⟩
          · exact ⟨rfl, hnormal⟩

theorem ofKeyword_dropDollars (kind : Kind) {rest : List Text}
    (h : ∀ word condition, kind = .elseTag → rest = word :: condition → '$' ∉ word) :
    (ofKeyword kind (rest.map Sigil.dropDollars)).1 = (ofKeyword kind rest).1 ∧
      Sigil.normalize metaMark (ofKeyword kind (rest.map Sigil.dropDollars)).2 =
        Sigil.normalize metaMark (ofKeyword kind rest).2 := by
  cases rest with
  | nil => exact ⟨rfl, rfl⟩
  | cons word condition =>
      have hcondition := Sigil.normalize_ofWords_dropDollars metaMark condition
      have hwords := Sigil.normalize_ofWords_dropDollars metaMark (word :: condition)
      simp only [List.map_cons, ofKeyword] at hwords ⊢
      by_cases hkind : kind = .elseTag
      · rw [Sigil.dropDollars_eq_self (h word condition hkind rfl)] at hwords ⊢
        split
        · exact ⟨rfl, hcondition⟩
        · exact ⟨rfl, hwords⟩
      · rw [if_neg (by simp [hkind]), if_neg (by simp [hkind])]
        exact ⟨rfl, hwords⟩

/-- Where sigils are optional, the dollar signs of a body change nothing of its reading. -/
theorem ofBody_dropDollars (h : Sigil.Optional body) :
    ofBody metaMark (Sigil.dropDollars body) = ofBody metaMark body := by
  have hraw : (raw (Sigil.dropDollars body)).1 = (raw body).1 ∧
      Sigil.normalize metaMark (raw (Sigil.dropDollars body)).2 =
        Sigil.normalize metaMark (raw body).2 := by
    unfold raw
    rw [h.words_dropDollars, h.trim_dropDollars]
    cases hwords : words body with
    | nil => exact ⟨rfl, rfl⟩
    | cons first rest =>
        have hfirst : '$' ∉ first := h.first first (by rw [hwords]; rfl)
        simp only [List.map_cons, Sigil.dropDollars_eq_self hfirst]
        cases hkeyword : Kind.ofKeyword? first with
        | none =>
            refine ofShape_dropDollars metaMark (trimmed_trim body) ?_
            rw [words_trim]
            exact h.first
        | some kind =>
            refine ofKeyword_dropDollars metaMark kind fun word condition hkind hrest => ?_
            have hname : kind.name = first := by
              simpa using List.find?_some hkeyword
            refine h.second word condition ?_
            rw [hwords, hrest, ← hname, hkind]
  obtain ⟨hkind, hexpression⟩ := hraw
  simp only [ofBody, hkind, hexpression]

/-- The fixed words of target code have no sigils. -/
theorem sigil_not_mem_fragment {metaMark : Text} {sigil : Char} (hsigil : sigil = '$' ∨ sigil = '@')
    (hmark : sigil ∉ metaMark) (body : Text) :
    sigil ∉ (ofBody metaMark body).fragment metaMark := by
  have hfixed : ∀ c, isFixedChar c = true → c ≠ sigil := by
    rintro c hc rfl
    rcases hsigil with rfl | rfl
    · exact absurd hc (by decide)
    · exact absurd hc (by decide)
  have hother : ∀ {text : Text}, sigil ∉ text → ∀ c ∈ text, c ≠ sigil := by
    rintro text htext c hc rfl
    exact htext hc
  have hexpression := hother (Sigil.not_mem_normalize hsigil hmark (raw body).2)
  intro hmem
  exact (CodeLaw.ofChars hfixed).fragment (ofBody metaMark body).kind (hother hmark)
    (fun _ => hexpression) (fun _ _ _ => trivial) 0 sigil hmem rfl

end Reading

/-- Sigils are optional: where dropping the dollar signs of a tag body leaves its words words, and
those that are looked at for a keyword as they are, it leaves the code as it is.  And sigils
never leak: whatever the body, its code has none, unless the metadata mark has a dollar sign. -/
theorem Compiler.compileTag_sigils (compiler : Compiler) (body : Text) :
    (Sigil.Optional body →
      compiler.compileTag body = compiler.compileTag (Sigil.dropDollars body)) ∧
    ('$' ∉ compiler.config.metaMark →
      '$' ∉ compiler.compileTag body ∧ '@' ∉ compiler.compileTag body) := by
  constructor
  · intro h
    rw [compileTag, compileTag, classify, classify, Reading.ofBody_dropDollars _ h]
  · intro hdollar
    have hat : '@' ∉ compiler.config.metaMark := by
      intro hmem
      rcases compiler.metaMark_chars _ hmem with hword | hsign
      · exact absurd hword (by decide)
      · exact absurd hsign (by decide)
    exact ⟨Reading.sigil_not_mem_fragment (.inl rfl) hdollar body,
      Reading.sigil_not_mem_fragment (.inr rfl) hat body⟩

/-- Sigils before a name, before metadata and in a literal. -/
theorem Compiler.compileTag_sigils_of_else_if :
    let body := "else if $row@first eq '$5'".toList
    Sigil.Optional body ∧ '$' ∉ standard.config.metaMark ∧
      standard.compileTag body = standard.compileTag (Sigil.dropDollars body) ∧
      '$' ∉ standard.compileTag body ∧ '@' ∉ standard.compileTag body := by
  intro body
  have hwords : words body = ["else".toList, "if".toList, "$row@first".toList, "eq".toList,
      "'$5'".toList] := by decide +kernel
  have hoptional : Sigil.Optional body := by
    constructor
    · intro word hword
      have hany : (words body).all (·.any (· != '$')) = true := by
        rw [hwords]
        decide
      simpa using List.all_eq_true.1 hany word hword
    · intro first hfirst
      rw [hwords] at hfirst
      obtain rfl := Option.some.inj hfirst
      decide
    · intro second rest h
      rw [hwords, List.cons.injEq, List.cons.injEq] at h
      rw [← h.2.1]
      decide
  have hmark : '$' ∉ standard.config.metaMark := by decide
  obtain ⟨hsame, hclean⟩ := compileTag_sigils standard body
  exact ⟨hoptional, hmark, hsame hoptional, hclean hmark⟩

end TagTemplate
