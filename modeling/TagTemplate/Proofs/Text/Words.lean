import TagTemplate.Proofs.Text.Parts

/-!
# Texts made of words

Words put together with single spaces are read back as they are (`words_ofWords`).  A blank
parts the words on its two sides (`words_append_cons`), so taking characters out of a text
takes them out of its words, as long as something is left of each (`words_filter`,
`trim_filter`).
-/

namespace TagTemplate.Text

/-- A text that is a word of itself. -/
structure Unbroken (word : Text) : Prop where
  ne_nil : word ≠ []
  noBlank : ∀ c ∈ word, isBlank c = false

instance (word : Text) : Decidable (Unbroken word) :=
  decidable_of_iff (word ≠ [] ∧ word.all (fun c => !isBlank c) = true)
    ⟨fun h => ⟨h.1, fun c hc => by simpa using List.all_eq_true.1 h.2 c hc⟩,
      fun h => ⟨h.ne_nil, List.all_eq_true.2 fun c hc => by simp [h.noBlank c hc]⟩⟩

theorem Unbroken.append {front back : Text} (hfront : Unbroken front)
    (hback : ∀ c ∈ back, isBlank c = false) : Unbroken (front ++ back) := by
  refine ⟨List.append_ne_nil_of_left_ne_nil hfront.ne_nil _, fun c hc => ?_⟩
  rcases List.mem_append.1 hc with hc | hc
  · exact hfront.noBlank c hc
  · exact hback c hc

theorem Unbroken.trimmed {word : Text} (h : Unbroken word) : Trimmed word :=
  ⟨fun c hc => h.noBlank c (List.mem_of_mem_head? hc),
    fun c hc => h.noBlank c (List.mem_of_getLast? hc)⟩

theorem Unbroken.not_mem {word : Text} (h : Unbroken word) {c : Char} (hc : isBlank c = true) :
    c ∉ word := by
  intro hmem
  rw [h.noBlank c hmem] at hc
  cases hc

theorem Unbroken.trim {word : Text} (h : Unbroken word) : trim word = word :=
  h.trimmed.trim_eq

theorem words_nil : words [] = [] := by
  rw [words.eq_def]

theorem words_cons (c : Char) (text : Text) :
    words (c :: text) = if isBlank c = true then words text
      else (c :: text.takeWhile fun d => !isBlank d) ::
        words (text.dropWhile fun d => !isBlank d) := by
  rw [words.eq_def]

theorem Unbroken.trimStart_cons {word : Text} (h : Unbroken word) {c : Char}
    (hc : isBlank c = true) (back : Text) : trimStart (c :: (word ++ back)) = word ++ back := by
  obtain ⟨d, rest, rfl⟩ := List.exists_cons_of_ne_nil h.ne_nil
  have hd : isBlank d = false := h.noBlank d List.mem_cons_self
  simp [trimStart, hc, hd]

theorem Unbroken.words_append {word : Text} (h : Unbroken word) (back : Text)
    (hback : ∀ c ∈ back.head?, isBlank c = true) : words (word ++ back) = word :: words back := by
  obtain ⟨c, rest, rfl⟩ := List.exists_cons_of_ne_nil h.ne_nil
  have hblank := h.noBlank
  rw [List.forall_mem_cons] at hblank
  have hrest : ∀ d ∈ rest, (!isBlank d) = true := fun d hd => by simp [hblank.2 d hd]
  have hstop : (back.takeWhile fun d => !isBlank d) = [] ∧
      (back.dropWhile fun d => !isBlank d) = back := by
    cases back with
    | nil => exact ⟨rfl, rfl⟩
    | cons d back =>
        have hd : isBlank d = true := hback d rfl
        simp [hd]
  rw [List.cons_append, words_cons, if_neg (by simp [hblank.1]), List.takeWhile_append_of_pos hrest,
    List.dropWhile_append_of_pos hrest, hstop.1, hstop.2, List.append_nil]

theorem Unbroken.words {word : Text} (h : Unbroken word) : words word = [word] := by
  have hword := h.words_append [] (by simp)
  rwa [List.append_nil, words_nil] at hword

theorem unbroken_of_mem_words {text word : Text} (h : word ∈ words text) : Unbroken word := by
  fun_induction words text with
  | case1 => cases h
  | case2 c text hc ih => exact ih h
  | case3 c text hc ih =>
      rcases List.mem_cons.1 h with rfl | h
      · refine ⟨List.cons_ne_nil _ _, List.forall_mem_cons.2 ⟨by simpa using hc, ?_⟩⟩
        exact fun d hd => by simpa using List.mem_takeWhile_imp hd
      · exact ih h

theorem ofWords_singleton (word : Text) : ofWords [word] = word :=
  List.intercalate_singleton

theorem ofWords_cons_cons (word next : Text) (others : List Text) :
    ofWords (word :: next :: others) = word ++ ' ' :: ofWords (next :: others) := by
  rw [ofWords, List.intercalate_cons_cons]
  simp [ofWords]

theorem trimmed_ofWords {list : List Text} (h : ∀ word ∈ list, Unbroken word) :
    Trimmed (ofWords list) := by
  induction list with
  | nil => exact ⟨by simp [ofWords], by simp [ofWords]⟩
  | cons word list ih =>
      rw [List.forall_mem_cons] at h
      cases list with
      | nil =>
          rw [ofWords_singleton]
          exact h.1.trimmed
      | cons next others =>
          have hrest := ih h.2
          have hne : ofWords (next :: others) ≠ [] := by
            have hnext := (List.forall_mem_cons.1 h.2).1.ne_nil
            cases others with
            | nil => rwa [ofWords_singleton]
            | cons other others =>
                rw [ofWords_cons_cons]
                exact List.append_ne_nil_of_left_ne_nil hnext _
          rw [ofWords_cons_cons]
          constructor
          · rw [List.head?_append_of_ne_nil _ h.1.ne_nil]
            exact h.1.trimmed.first
          · rw [List.append_cons, List.getLast?_append_of_ne_nil _ hne]
            exact hrest.last

/-- Of the blanks only spaces stand in a text made of words. -/
theorem not_mem_ofWords {list : List Text} (h : ∀ word ∈ list, Unbroken word) {c : Char}
    (hc : isBlank c = true) (hne : c ≠ ' ') : c ∉ ofWords list := by
  intro hmem
  rcases mem_intercalate hmem with hspace | ⟨word, hword, hmem⟩
  · exact hne (List.mem_singleton.1 hspace)
  · exact (h word hword).not_mem hc hmem

/-! ## Blanks between words -/

theorem words_append_cons {c : Char} (hc : isBlank c = true) (front back : Text) :
    words (front ++ c :: back) = words front ++ words back := by
  fun_induction words front with
  | case1 => rw [List.nil_append, words_cons, if_pos hc, List.nil_append]
  | case2 d front hd ih => rw [List.cons_append, words_cons, if_pos hd, ih]
  | case3 d front hd ih =>
      have hword : Unbroken (d :: front.takeWhile fun e => !isBlank e) := by
        refine ⟨List.cons_ne_nil _ _, List.forall_mem_cons.2 ⟨by simpa using hd, ?_⟩⟩
        exact fun e he => by simpa using List.mem_takeWhile_imp he
      have hhead : ∀ e ∈ (front.dropWhile (fun e => !isBlank e) ++ c :: back).head?,
          isBlank e = true := by
        intro e he
        rw [List.head?_append] at he
        cases hrest : (front.dropWhile fun e => !isBlank e).head? with
        | none =>
            rw [hrest] at he
            obtain rfl := Option.some.inj he
            exact hc
        | some blank =>
            rw [hrest] at he
            obtain rfl := Option.some.inj he
            simpa using not_of_mem_head?_dropWhile _ _ hrest
      have hsplit := hword.words_append _ hhead
      rw [List.cons_append, ← List.append_assoc, List.takeWhile_append_dropWhile] at hsplit
      rw [List.cons_append, hsplit, ih, List.cons_append]

theorem words_append_of_allBlank {front : Text} (h : AllBlank front) (back : Text) :
    words (front ++ back) = words back := by
  induction front with
  | nil => rfl
  | cons c front ih =>
      rw [List.cons_append, words_cons, if_pos (h c List.mem_cons_self)]
      exact ih fun d hd => h d (List.mem_cons_of_mem c hd)

theorem words_trimStart (text : Text) : words (trimStart text) = words text := by
  rw [← words_append_of_allBlank (allBlank_takeWhile text), trimStart,
    List.takeWhile_append_dropWhile]

theorem words_trim (text : Text) : words (trim text) = words text := by
  obtain ⟨front, back, hfront, hback, heq⟩ := exists_eq_append_trim text
  have hend : words (trim text ++ back) = words (trim text) := by
    cases back with
    | nil => rw [List.append_nil]
    | cons c back =>
        have hblanks :=
          words_append_of_allBlank (fun d hd => hback d (List.mem_cons_of_mem c hd)) []
        rw [List.append_nil, words_nil] at hblanks
        rw [words_append_cons (hback c List.mem_cons_self), hblanks, List.append_nil]
  conv_rhs => rw [heq, List.append_assoc, words_append_of_allBlank hfront, hend]

/-- Of texts without blanks, put together, all but the empty ones are read back. -/
theorem words_ofWords_eq_filter {list : List Text}
    (h : ∀ word ∈ list, ∀ c ∈ word, isBlank c = false) :
    words (ofWords list) = list.filter fun word => word ≠ [] := by
  have hword : ∀ {word : Text}, (∀ c ∈ word, isBlank c = false) →
      words word = [word].filter fun word => word ≠ [] := by
    intro word hblank
    by_cases hne : word = []
    · subst hne
      exact words_nil
    · rw [(Unbroken.mk hne hblank).words, List.filter_cons_of_pos (by simpa using hne)]
      rfl
  induction list with
  | nil => exact words_nil
  | cons word list ih =>
      rw [List.forall_mem_cons] at h
      cases list with
      | nil => rw [ofWords_singleton, hword h.1]
      | cons next others =>
          rw [ofWords_cons_cons, words_append_cons (by decide), hword h.1, ih h.2,
            ← List.filter_append, List.singleton_append]

theorem words_ofWords {list : List Text} (h : ∀ word ∈ list, Unbroken word) :
    words (ofWords list) = list := by
  rw [words_ofWords_eq_filter fun word hword => (h word hword).noBlank, List.filter_eq_self]
  exact fun word hword => by simpa using (h word hword).ne_nil

/-! ## Characters taken out of the words -/

section Filter

variable {p : Char → Bool} {text : Text} (hp : ∀ c, isBlank c = true → p c = true)
  (h : ∀ word ∈ words text, ∃ c ∈ word, p c = true)

include hp h

theorem words_filter : words (text.filter p) = (words text).map (List.filter p) := by
  fun_induction words text with
  | case1 => exact words_nil
  | case2 c text hc ih => rw [List.filter_cons_of_pos (hp c hc), words_cons, if_pos hc, ih h]
  | case3 c text hc ih =>
      rw [List.forall_mem_cons] at h
      obtain ⟨⟨kept, hkept, hpkept⟩, hrest⟩ := h
      have hword : Unbroken ((c :: text.takeWhile fun d => !isBlank d).filter p) := by
        refine ⟨List.ne_nil_of_mem (List.mem_filter.2 ⟨hkept, hpkept⟩), fun d hd => ?_⟩
        rcases List.mem_cons.1 (List.mem_of_mem_filter hd) with rfl | hd
        · simpa using hc
        · simpa using List.mem_takeWhile_imp hd
      have hhead : ∀ d ∈ ((text.dropWhile fun d => !isBlank d).filter p).head?,
          isBlank d = true := by
        cases hback : text.dropWhile fun d => !isBlank d with
        | nil => simp
        | cons blank back =>
            have hblank : isBlank blank = true := by
              simpa using not_of_mem_head?_dropWhile (fun d => !isBlank d) text
                (show blank ∈ (text.dropWhile fun d => !isBlank d).head? by rw [hback]; rfl)
            rw [List.filter_cons_of_pos (hp blank hblank)]
            simpa using hblank
      have hsplit := hword.words_append _ hhead
      rw [← List.filter_append, List.cons_append, List.takeWhile_append_dropWhile] at hsplit
      rw [hsplit, ih hrest, List.map_cons]

/-- Neither end of the text loses all characters up to a blank. -/
theorem trim_filter : trim (text.filter p) = (trim text).filter p := by
  have hblanks : ∀ {blanks : Text}, AllBlank blanks → blanks.filter p = blanks :=
    fun hblanks => List.filter_eq_self.2 fun c hc => hp c (hblanks c hc)
  -- Characters that are taken out, up to a blank on both sides, would be a word.
  have hlost : ∀ {lost : Text}, lost ≠ [] → (∀ c ∈ lost, ¬ p c = true) →
      words lost ⊆ words (trim text) → False := by
    intro lost hne hnone hsub
    have hword : Unbroken lost := by
      refine ⟨hne, fun c hc => ?_⟩
      rw [← Bool.not_eq_true]
      exact fun hblank => hnone c hc (hp c hblank)
    rw [hword.words, words_trim] at hsub
    obtain ⟨c, hc, hpc⟩ := h lost (hsub List.mem_cons_self)
    exact hnone c hc hpc
  have hends := trimmed_trim text
  have htrimmed : Trimmed ((trim text).filter p) := by
    constructor
    · intro c hc
      obtain ⟨rest, hrest⟩ := List.head?_eq_some_iff.1 hc
      obtain ⟨lost, back, heq, hnone, -, -⟩ := List.filter_eq_cons_iff.1 hrest
      rw [← Bool.not_eq_true]
      intro hblank
      by_cases hne : lost = []
      · rw [heq, hne] at hends
        exact absurd hblank (by simp [hends.first c rfl])
      · refine hlost hne hnone ?_
        rw [heq, words_append_cons hblank]
        exact List.subset_append_left _ _
    · intro c hc
      obtain ⟨rest, hrest⟩ := List.getLast?_eq_some_iff.1 hc
      obtain ⟨front, back, heq, -, hback⟩ := List.filter_eq_append_iff.1 hrest
      obtain ⟨dropped, lost, rfl, -, -, hnone⟩ := List.filter_eq_cons_iff.1 hback
      rw [← Bool.not_eq_true]
      intro hblank
      by_cases hne : lost = []
      · rw [heq, hne] at hends
        exact absurd hblank (by simp [hends.last c (by simp)])
      · refine hlost hne (List.filter_eq_nil_iff.1 hnone) ?_
        rw [heq, ← List.append_assoc, words_append_cons hblank]
        exact List.subset_append_right _ _
  obtain ⟨front, back, hfront, hback, heq⟩ := exists_eq_append_trim text
  conv_lhs => rw [heq, List.filter_append, List.filter_append, hblanks hfront, hblanks hback,
    trim_append_of_allBlank_right _ hback, trim_append_of_allBlank_left hfront, htrimmed.trim_eq]

end Filter

end TagTemplate.Text
