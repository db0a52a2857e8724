import TagTemplate.Proofs.Template.Output
import TagTemplate.Proofs.Text.Occurrences

/-!
# Edges of wrapped code

Padding compares counts of source delimiters and never looks for one at an edge.  Delimiters
without a border are counted once for each place where they stand, so a text put in front of
code adds the places that begin in that text, and a text put behind code adds those that end
in it.  Code that is long enough keeps the two edges apart, and a space at an edge breaks every
delimiter that would stand across it (`Compiler.wrap_edges`).
-/

namespace TagTemplate

open Text

def Config.sourceTokens (config : Config) : List Text :=
  [config.sourceOpen, config.sourceClose]

/-- A usable configuration with source delimiters that do not overlap themselves and that no
space is part of. -/
structure Config.PlainTokens (config : Config) : Prop where
  valid : config.Valid
  borderless : ∀ token ∈ config.sourceTokens, Borderless token
  noSpace : ∀ token ∈ config.sourceTokens, ' ' ∉ token

theorem Config.PlainTokens.ne_nil {config : Config} (h : config.PlainTokens) :
    ∀ token ∈ config.sourceTokens, token ≠ [] := by
  obtain ⟨hopen, hclose, -⟩ := (Config.valid_iff config).1 h.valid
  rw [Config.sourceTokens, List.forall_mem_cons, List.forall_mem_singleton]
  exact ⟨hopen, hclose⟩

namespace Compiler

variable {token : Text}

/-! ## Counting is exact -/

theorem countFrom_eq_of_no_place {skip : Nat} {text : Text}
    (h : ∀ start < skip, ¬ OccursAt token text start) :
    countFrom token skip text = countFrom token 0 text := by
  induction skip generalizing text with
  | zero => rfl
  | succ skip ih =>
      cases text with
      | nil => rfl
      | cons c text =>
          have hhere : ¬ (after? token (c :: text)).isSome = true := fun hstands =>
            h 0 (Nat.succ_pos skip) (occursAt_zero.2 (isSome_after?_iff.1 hstands))
          have hlater : ∀ start < skip, ¬ OccursAt token text start := fun start hstart hplace =>
            h (start + 1) (Nat.succ_lt_succ hstart) (occursAt_cons_succ.2 hplace)
          rw [countFrom, ih hlater, countFrom, if_neg hhere]

theorem countFrom_cons (hborder : Borderless token) (c : Char) (text : Text) :
    countFrom token 0 (c :: text) =
      (if OccursAt token (c :: text) 0 then 1 else 0) + countFrom token 0 text := by
  by_cases hplace : OccursAt token (c :: text) 0
  · have hskip : ∀ start < token.length - 1, ¬ OccursAt token text start := by
      intro start hstart hnext
      have hapart := hborder.le_of_occursAt hplace (occursAt_cons_succ.2 hnext) (Nat.succ_pos start)
      omega
    rw [countFrom, if_pos (isSome_after?_iff.2 (occursAt_zero.1 hplace)), if_pos hplace,
      countFrom_eq_of_no_place hskip]
  · rw [countFrom, if_neg (mt isSome_after?_iff.1 (mt occursAt_zero.2 hplace)), if_neg hplace,
      Nat.zero_add]

/-- Text in front adds the places that begin in it. -/
theorem countFrom_append_left (hborder : Borderless token) (front text : Text) :
    countFrom token 0 (front ++ text) = countFrom token 0 text +
      (List.range front.length).countP fun start => OccursAt token (front ++ text) start := by
  induction front with
  | nil => simp
  | cons c front ih =>
      have hlater : (fun start => decide (OccursAt token (c :: (front ++ text)) start)) ∘ Nat.succ =
          fun start => decide (OccursAt token (front ++ text) start) := by
        funext start
        exact decide_eq_decide.2 occursAt_cons_succ
      rw [List.cons_append, countFrom_cons hborder, ih, List.length_cons, List.range_succ_eq_map,
        List.countP_cons, List.countP_map, hlater]
      simp only [decide_eq_true_eq]
      omega

/-- Text behind adds the places that end in it. -/
theorem countFrom_append_right (hborder : Borderless token) (hne : token ≠ []) (text back : Text) :
    countFrom token 0 (text ++ back) =
      countFrom token 0 text + (List.range (text.length + back.length)).countP
        fun start => OccursAt token (text ++ back) start ∧ text.length < start + token.length := by
  induction text with
  | nil =>
      have hpos := List.length_pos_iff.2 hne
      have hall : ∀ start, 0 < start + token.length := fun start => by omega
      have hback := countFrom_append_left hborder back []
      rw [List.append_nil] at hback
      simp [hback, hall]
  | cons c text ih =>
      have hfirst : (if OccursAt token (c :: (text ++ back)) 0 then 1 else 0) =
          (if OccursAt token (c :: text) 0 then 1 else 0) +
            if OccursAt token (c :: (text ++ back)) 0 ∧ text.length + 1 < token.length
              then 1 else 0 := by
        by_cases hinside : OccursAt token (c :: text) 0
        · have hwhole : OccursAt token (c :: (text ++ back)) 0 := hinside.append back
          have hlength := hinside.add_length_le hne
          rw [List.length_cons] at hlength
          rw [if_pos hwhole, if_pos hinside, if_neg (by omega)]
        · have hlength : OccursAt token (c :: (text ++ back)) 0 → text.length + 1 < token.length := by
            intro hplace
            by_contra hshort
            have hends : 0 + token.length ≤ (c :: text).length := by
              rw [List.length_cons]
              omega
            exact hinside (OccursAt.of_append hplace hends)
          rw [if_neg hinside, Nat.zero_add]
          exact if_congr (iff_self_and.2 hlength) rfl rfl
      have hlater : (fun start => decide (OccursAt token (c :: (text ++ back)) start ∧
            text.length + 1 < start + token.length)) ∘ Nat.succ =
          fun start => decide (OccursAt token (text ++ back) start ∧
            text.length < start + token.length) := by
        funext start
        refine decide_eq_decide.2 (and_congr occursAt_cons_succ ?_)
        omega
      rw [List.cons_append, countFrom_cons hborder, ih, hfirst, countFrom_cons hborder,
        List.length_cons, Nat.add_right_comm text.length, List.range_succ_eq_map, List.countP_cons,
        List.countP_map, hlater]
      simp only [decide_eq_true_eq, Nat.zero_add]
      omega

/-! ## What pads an edge -/

variable {config : Config}

theorem countDelimiters_lt_iff {text longer : Text} (added : Text → Nat)
    (hcount : ∀ token ∈ config.sourceTokens,
      countFrom token 0 longer = countFrom token 0 text + added token) :
    countDelimiters config text < countDelimiters config longer ↔
      ∃ token ∈ config.sourceTokens, 0 < added token := by
  rw [Config.sourceTokens, List.forall_mem_cons, List.forall_mem_singleton] at hcount
  rw [countDelimiters, countDelimiters, hcount.1, hcount.2]
  simp only [Config.sourceTokens, List.mem_cons, List.not_mem_nil, or_false, exists_eq_or_imp,
    exists_eq_left]
  omega

theorem frontPad_eq_space_iff (h : config.PlainTokens) (code : Text) :
    frontPad config code = [' '] ↔ ∃ token ∈ config.sourceTokens,
      ∃ start < config.targetOpen.length, OccursAt token (config.targetOpen ++ code) start := by
  have hcount := countDelimiters_lt_iff _ fun token htoken =>
    countFrom_append_left (h.borderless token htoken) config.targetOpen code
  simp only [List.countP_pos_iff, List.mem_range, decide_eq_true_eq] at hcount
  rw [← hcount]
  simp [frontPad]

theorem backPad_eq_space_iff (h : config.PlainTokens) (code : Text) :
    backPad config code = [' '] ↔ ∃ token ∈ config.sourceTokens,
      ∃ start, OccursAt token (code ++ config.targetClose) start ∧
        code.length < start + token.length := by
  have hcount := countDelimiters_lt_iff _ fun token htoken =>
    countFrom_append_right (h.borderless token htoken) (h.ne_nil token htoken) code
      config.targetClose
  simp only [List.countP_pos_iff, List.mem_range, decide_eq_true_eq] at hcount
  have hpad : backPad config code = [' '] ↔
      countDelimiters config code < countDelimiters config (code ++ config.targetClose) := by
    simp [backPad]
  rw [hpad, hcount]
  refine exists_congr fun token => and_congr_right fun htoken => exists_congr fun start => ?_
  refine and_iff_right_of_imp fun hplace => ?_
  have hlength := hplace.1.add_length_le (h.ne_nil token htoken)
  have hpos := List.length_pos_iff.2 (h.ne_nil token htoken)
  rw [List.length_append] at hlength
  omega

/-! ## The edges -/

variable {code : Text} {start : Nat}

/-- No source delimiter begins in the opening target delimiter and ends behind it. -/
theorem wrap_frontEdge (h : config.PlainTokens) (htoken : token ∈ config.sourceTokens)
    (hlength : token.length - 1 ≤ code.length) (hplace : OccursAt token (wrap config code) start) :
    start + token.length ≤ config.targetOpen.length ∨
      (config.targetOpen ++ frontPad config code).length ≤ start := by
  rw [wrap_eq, List.append_assoc] at hplace
  rcases frontPad_eq config code with hfront | hfront
  · by_contra hacross
    rw [hfront, List.append_nil, not_or, not_le, not_le] at hacross
    -- The code holds all that the delimiter has behind the edge, so the count has seen it.
    have hseen : OccursAt token (config.targetOpen ++ code) start := by
      rw [hfront, List.nil_append, List.append_assoc, ← List.append_assoc] at hplace
      exact hplace.of_append (by rw [List.length_append]; omega)
    have hpad := (frontPad_eq_space_iff h code).2 ⟨token, htoken, start, hacross.2, hseen⟩
    rw [hfront] at hpad
    cases hpad
  · rw [hfront, List.append_assoc, List.append_assoc, List.singleton_append] at hplace
    rw [hfront, List.length_append, List.length_singleton]
    exact hplace.not_covers (h.noSpace token htoken)

/-- No source delimiter that begins in the code ends behind it. -/
theorem wrap_backEdge (h : config.PlainTokens) (htoken : token ∈ config.sourceTokens)
    (hstart : (config.targetOpen ++ frontPad config code).length ≤ start)
    (hplace : OccursAt token (wrap config code) start) :
    start + token.length ≤ (config.targetOpen ++ frontPad config code ++ code).length ∨
      (config.targetOpen ++ frontPad config code ++ code ++ backPad config code).length ≤ start := by
  have hwrap : wrap config code = config.targetOpen ++ frontPad config code ++ code ++
      (backPad config code ++ config.targetClose) := by
    rw [wrap_eq]
    simp
  rw [hwrap] at hplace
  rcases backPad_eq config code with hback | hback
  · left
    by_contra hacross
    rw [hback, List.nil_append, List.append_assoc] at hplace
    obtain ⟨place, rfl⟩ := Nat.exists_eq_add_of_le hstart
    rw [occursAt_append_add] at hplace
    have hsum : (config.targetOpen ++ frontPad config code ++ code).length =
      (config.targetOpen ++ frontPad config code).length + code.length := List.length_append
    rw [hsum, not_le] at hacross
    have hpad := (backPad_eq_space_iff h code).2 ⟨token, htoken, place, hplace, by omega⟩
    rw [hback] at hpad
    cases hpad
  · rw [hback, List.singleton_append] at hplace
    have hpadded : (config.targetOpen ++ frontPad config code ++ code ++ [' ']).length =
      (config.targetOpen ++ frontPad config code ++ code).length + 1 := List.length_append
    rw [hback, hpadded]
    exact hplace.not_covers (h.noSpace token htoken)

theorem frontPad_eq_space_iff_spans (h : config.PlainTokens)
    (hlength : ∀ token ∈ config.sourceTokens, token.length - 1 ≤ code.length)
    (hopen : ∀ token ∈ config.sourceTokens, ¬ token <:+: config.targetOpen) :
    frontPad config code = [' '] ↔ ∃ token ∈ config.sourceTokens,
      Spans token (config.targetOpen ++ code ++ config.targetClose) config.targetOpen.length := by
  rw [frontPad_eq_space_iff h]
  refine exists_congr fun token => and_congr_right fun htoken => exists_congr fun start =>
    and_congr_right fun hstart => ⟨fun hplace => ⟨hplace.append _, ?_⟩, ?_⟩
  · by_contra hinside
    exact hopen token htoken (isInfix_of_occursAt (hplace.of_append (not_lt.1 hinside)))
  · rintro ⟨hplace, -⟩
    have hshort := hlength token htoken
    exact hplace.of_append (by rw [List.length_append]; omega)

theorem backPad_eq_space_iff_spans (h : config.PlainTokens)
    (hlength : ∀ token ∈ config.sourceTokens, token.length - 1 ≤ code.length)
    (hclose : ∀ token ∈ config.sourceTokens, ¬ token <:+: config.targetClose) :
    backPad config code = [' '] ↔ ∃ token ∈ config.sourceTokens,
      Spans token (config.targetOpen ++ code ++ config.targetClose)
        (config.targetOpen ++ code).length := by
  rw [backPad_eq_space_iff h, List.append_assoc]
  refine exists_congr fun token => and_congr_right fun htoken => ⟨?_, ?_⟩
  · rintro ⟨start, hplace, hend⟩
    refine ⟨config.targetOpen.length + start, ?_, occursAt_append_add.2 hplace, ?_⟩
    · rw [List.length_append, Nat.add_lt_add_iff_left]
      by_contra hbehind
      obtain ⟨place, rfl⟩ := Nat.exists_eq_add_of_le (not_lt.1 hbehind)
      exact hclose token htoken (isInfix_of_occursAt (occursAt_append_add.1 hplace))
    · rw [List.length_append]
      omega
  · rintro ⟨start, hstart, hplace, hend⟩
    have hshort := hlength token htoken
    rw [List.length_append] at hstart hend
    obtain ⟨place, rfl⟩ := Nat.exists_eq_add_of_le (show config.targetOpen.length ≤ start by omega)
    exact ⟨place, occursAt_append_add.1 hplace, by omega⟩

/-- Wrapped code is the code between the target delimiters, with at most one space at either
edge, and each source delimiter in it lies in the code or in one of the target delimiters.
Unless the target delimiters bring source delimiters of their own, an edge is padded exactly
if without the spaces a source delimiter would stand across it. -/
theorem wrap_edges (h : config.PlainTokens) (code : Text)
    (hlength : max config.sourceOpen.length config.sourceClose.length - 1 ≤ code.length) :
    let front := frontPad config code
    let back := backPad config code
    wrap config code = config.targetOpen ++ front ++ code ++ back ++ config.targetClose ∧
    (front = [] ∨ front = [' ']) ∧ (back = [] ∨ back = [' ']) ∧
    (∀ token ∈ config.sourceTokens, ∀ start, OccursAt token (wrap config code) start →
      start + token.length ≤ config.targetOpen.length ∨
      ((config.targetOpen ++ front).length ≤ start ∧
        start + token.length ≤ (config.targetOpen ++ front ++ code).length) ∨
      (config.targetOpen ++ front ++ code ++ back).length ≤ start) ∧
    ((∀ token ∈ config.sourceTokens,
        ¬ token <:+: config.targetOpen ∧ ¬ token <:+: config.targetClose) →
      let unpadded := config.targetOpen ++ code ++ config.targetClose
      (front = [' '] ↔ ∃ token ∈ config.sourceTokens,
        Spans token unpadded config.targetOpen.length) ∧
      (back = [' '] ↔ ∃ token ∈ config.sourceTokens,
        Spans token unpadded (config.targetOpen ++ code).length)) := by
  have hshort : ∀ token ∈ config.sourceTokens, token.length - 1 ≤ code.length := by
    rw [Config.sourceTokens, List.forall_mem_cons, List.forall_mem_singleton]
    omega
  refine ⟨by rw [wrap_eq]; simp, frontPad_eq config code, backPad_eq config code, ?_,
    fun htarget => ⟨?_, ?_⟩⟩
  · intro token htoken start hplace
    rcases wrap_frontEdge h htoken (hshort token htoken) hplace with hfront | hfront
    · exact Or.inl hfront
    · exact Or.inr ((wrap_backEdge h htoken hfront hplace).imp_left fun hend => ⟨hfront, hend⟩)
  · exact frontPad_eq_space_iff_spans h hshort fun token htoken => (htarget token htoken).1
  · exact backPad_eq_space_iff_spans h hshort fun token htoken => (htarget token htoken).2

/-- Both target delimiters go on in the code, which has parts of the source delimiters at its
ends and a whole one inside. -/
theorem wrap_edges_of_brackets :
    let config : Config := ⟨"<<%".toList, "%>".toList, "[<".toList, ">]".toList, "_".toList⟩
    let code := "<%<<%>%".toList
    config.PlainTokens ∧ max config.sourceOpen.length config.sourceClose.length - 1 ≤ code.length ∧
      (∀ token ∈ config.sourceTokens,
        ¬ token <:+: config.targetOpen ∧ ¬ token <:+: config.targetClose) ∧
      wrap config code = "[< <%<<%>% >]".toList := by
  intro config code
  have hplain : config.PlainTokens := ⟨by decide, by decide, by decide⟩
  have hlength : max config.sourceOpen.length config.sourceClose.length - 1 ≤ code.length := by
    decide
  have htarget : ∀ token ∈ config.sourceTokens,
      ¬ token <:+: config.targetOpen ∧ ¬ token <:+: config.targetClose := by decide
  obtain ⟨hwrap, -, -, -, hpad⟩ := wrap_edges hplain code hlength
  have hfront := (hpad htarget).1.2 (by decide)
  have hback := (hpad htarget).2.2 (by decide)
  rw [hfront, hback] at hwrap
  exact ⟨hplain, hlength, htarget, hwrap⟩

end Compiler

end TagTemplate
