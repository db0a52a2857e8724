import TagTemplate.Proofs.Template.TagEnd

/-!
# Cutting a template at its tags

A template without a readable tag is one literal text.  Otherwise the cut is made at the
first place where a tag can be read, and goes on behind that tag.  From this follow the
two laws of the cut: segments whose delimiters stand for the first time where they were
put are found again (`ofText_source`), and a template can be cut in two where no opening
delimiter has begun (`ofText_append`).
-/

namespace TagTemplate.Segments

open Text

variable {delimiters : Delimiters}

/-! ## Parts -/

theorem mem_literals_of_mem_tags {segments : Segments} {part : Text × Tag}
    (h : part ∈ segments.tags) : part.1 ∈ segments.literals :=
  List.mem_append_left _ (List.mem_map_of_mem h)

theorem mem_bodies_of_mem_tags {segments : Segments} {part : Text × Tag}
    (h : part ∈ segments.tags) : part.2.body ∈ segments.bodies :=
  List.mem_map_of_mem h

theorem rest_mem_literals (segments : Segments) : segments.rest ∈ segments.literals :=
  List.mem_append_right _ (List.mem_singleton_self _)

/-! ## One step -/

def pushText (front : Text) (segments : Segments) : Segments :=
  front.foldr push segments

/-- The segments of two templates that are put together: the literal text behind the last
tag of the first one joins the first literal text of the second one. -/
def append (front back : Segments) : Segments :=
  ⟨front.tags ++ (pushText front.rest back).tags, (pushText front.rest back).rest⟩

@[simp] theorem pushText_cons (c : Char) (front : Text) (segments : Segments) :
    pushText (c :: front) segments = (pushText front segments).push c := rfl

theorem push_tags_eq_nil_iff (c : Char) (segments : Segments) :
    (segments.push c).tags = [] ↔ segments.tags = [] := by
  rcases segments with ⟨_ | ⟨first, others⟩, rest⟩ <;> simp [push]

theorem push_rest_of_tags_ne_nil (c : Char) {segments : Segments} (h : segments.tags ≠ []) :
    (segments.push c).rest = segments.rest := by
  rcases segments with ⟨_ | ⟨first, others⟩, rest⟩
  · exact absurd rfl h
  · rfl

@[simp] theorem splice_push (replace : Tag → Text) (c : Char) (segments : Segments) :
    (segments.push c).splice replace = c :: segments.splice replace := by
  rcases segments with ⟨_ | ⟨first, others⟩, rest⟩ <;> simp [push, splice]

theorem splice_cons (replace : Tag → Text) (part : Text × Tag) (tags : List (Text × Tag))
    (rest : Text) :
    splice replace ⟨part :: tags, rest⟩ =
      part.1 ++ replace part.2 ++ splice replace ⟨tags, rest⟩ := by
  simp [splice]

theorem splice_pushText (replace : Tag → Text) (front : Text) (segments : Segments) :
    (pushText front segments).splice replace = front ++ segments.splice replace := by
  induction front with
  | nil => rfl
  | cons c front ih => rw [pushText_cons, splice_push, ih, List.cons_append]

theorem splice_append (replace : Tag → Text) (front back : Segments) :
    (append front back).splice replace = front.splice replace ++ back.splice replace := by
  have h := splice_pushText replace front.rest back
  simp only [splice] at h ⊢
  simp [append, h]

theorem push_append (c : Char) (front back : Segments) :
    append (front.push c) back = (append front back).push c := by
  rcases front with ⟨_ | ⟨first, others⟩, rest⟩
  · simp [append, push]
  · simp [append, push]

theorem ofText_of_read? {text rest : Text} {tag : Tag}
    (h : Tag.read? delimiters text = some (tag, rest)) :
    ofText delimiters text =
      ⟨([], tag) :: (ofText delimiters rest).tags, (ofText delimiters rest).rest⟩ := by
  cases text with
  | nil =>
      have hlength := Tag.length_of_read? h
      simp at hlength
  | cons c text =>
      rw [ofText]
      split
      · rename_i tag' rest' h'
        rw [h] at h'
        obtain ⟨rfl, rfl⟩ := Prod.mk.inj (Option.some.inj h')
        rfl
      · rename_i h'
        rw [h] at h'
        cases h'

theorem ofText_of_read?_eq_none {text : Text} {c : Char}
    (h : Tag.read? delimiters (c :: text) = none) :
    ofText delimiters (c :: text) = (ofText delimiters text).push c := by
  rw [ofText]
  split
  · rename_i h'
    rw [h] at h'
    cases h'
  · rfl

theorem ofText_nil : ofText delimiters [] = ⟨[], []⟩ := by
  rw [ofText]

/-- Induction along the cut: a readable tag is passed over at once, everything else
character by character. -/
theorem ofText_induction (delimiters : Delimiters) (motive : Text → Prop) (nil : motive [])
    (tag : ∀ text tag rest, Tag.read? delimiters text = some (tag, rest) → motive rest →
      motive text)
    (literal : ∀ c text, Tag.read? delimiters (c :: text) = none → motive text →
      motive (c :: text))
    (text : Text) : motive text := by
  induction hlength : text.length using Nat.strong_induction_on generalizing text with
  | _ length ih =>
      subst hlength
      cases text with
      | nil => exact nil
      | cons c text =>
          cases hread : Tag.read? delimiters (c :: text) with
          | none => exact literal c text hread (ih _ (by simp) text rfl)
          | some found =>
              have hshorter := Tag.length_of_read? hread
              exact tag _ found.1 found.2 hread (ih _ hshorter found.2 rfl)

/-! ## What is found -/

theorem tags_ofText_eq_nil_iff {text : Text} :
    (ofText delimiters text).tags = [] ↔
      ∀ back, back <:+ text → Tag.read? delimiters back = none := by
  induction text using ofText_induction delimiters with
  | nil =>
      rw [ofText_nil]
      simp only [List.suffix_nil, forall_eq, true_iff]
      rw [Option.eq_none_iff_forall_ne_some]
      intro found h
      have hlength := Tag.length_of_read? h
      simp at hlength
  | tag text tag rest h ih =>
      rw [ofText_of_read? h]
      constructor
      · intro hnil
        cases hnil
      · intro hnone
        rw [hnone text (List.suffix_refl text)] at h
        cases h
  | literal c text h ih =>
      rw [ofText_of_read?_eq_none h, push_tags_eq_nil_iff, ih]
      constructor
      · intro hnone back hback
        rcases List.suffix_cons_iff.1 hback with rfl | hback
        · exact h
        · exact hnone back hback
      · intro hnone back hback
        exact hnone back (hback.trans (List.suffix_cons c text))

/-- A template without an opening delimiter has no tags. -/
theorem tags_ofText_of_not_infix {text : Text} (h : ¬ delimiters.opening <:+: text) :
    (ofText delimiters text).tags = [] := by
  rw [tags_ofText_eq_nil_iff]
  intro back hback
  rw [Option.eq_none_iff_forall_ne_some]
  rintro ⟨tag, rest⟩ hread
  apply h
  refine List.IsInfix.trans ?_ hback.isInfix
  rw [Tag.eq_of_read? hread]
  exact ⟨[], tag.inner ++ delimiters.closing ++ rest, by simp [Tag.source]⟩

theorem rest_of_tags_eq_nil {text : Text} (h : (ofText delimiters text).tags = []) :
    (ofText delimiters text).rest = text := by
  have hsource := source_ofText delimiters text
  simpa [source, h] using hsource

/-- What holds of every tag that can be read holds of the tags of a template. -/
theorem forall_mem_tags {p : Tag → Prop}
    (h : ∀ text tag rest, Tag.read? delimiters text = some (tag, rest) → p tag) (text : Text) :
    ∀ part ∈ (ofText delimiters text).tags, p part.2 := by
  induction text using ofText_induction delimiters with
  | nil => simp [ofText_nil]
  | tag text tag rest hread ih =>
      rw [ofText_of_read? hread]
      intro part hpart
      rcases List.mem_cons.1 hpart with rfl | hpart
      · exact h text tag rest hread
      · exact ih part hpart
  | literal c text hread ih =>
      rw [ofText_of_read?_eq_none hread]
      rcases hs : ofText delimiters text with ⟨_ | ⟨first, others⟩, rest⟩
      · simp [push]
      · rw [hs] at ih
        intro part hpart
        simp only [push, List.mem_cons] at hpart
        rcases hpart with rfl | hpart
        · exact ih first List.mem_cons_self
        · exact ih part (List.mem_cons_of_mem first hpart)

/-- Bodies hold no line feed. -/
theorem newline_not_mem_bodies (hsolid : StartsSolid delimiters.closing) (text : Text) :
    ∀ body ∈ (ofText delimiters text).bodies, '\n' ∉ body := by
  intro body hbody
  obtain ⟨part, hpart, rfl⟩ := List.mem_map.1 hbody
  refine forall_mem_tags (p := fun tag => '\n' ∉ tag.body) ?_ text part hpart
  intro text tag rest hread
  exact ((Tag.read?_eq_some_iff hsolid).1 hread).2.2

/-- A template with tags, taken apart at its first one: in front of it no tag can be
read. -/
theorem exists_first_tag {text : Text} (h : (ofText delimiters text).tags ≠ []) :
    ∃ before tag rest, text = before ++ tag.source delimiters ++ rest ∧
      ofText delimiters text = ⟨(before, tag) :: (ofText delimiters rest).tags,
        (ofText delimiters rest).rest⟩ ∧
      ∀ front back, before = front ++ back → back ≠ [] →
        Tag.read? delimiters (back ++ tag.source delimiters ++ rest) = none := by
  induction text using ofText_induction delimiters with
  | nil => exact absurd (by rw [ofText_nil]) h
  | tag text tag rest hread ih =>
      refine ⟨[], tag, rest, Tag.eq_of_read? hread, ofText_of_read? hread, ?_⟩
      intro front back heq hback
      exact absurd (List.append_eq_nil_iff.1 heq.symm).2 hback
  | literal c text hread ih =>
      rw [ofText_of_read?_eq_none hread] at h
      obtain ⟨before, tag, rest, htext, hsegments, hfirst⟩ :=
        ih (mt (push_tags_eq_nil_iff c _).2 h)
      refine ⟨c :: before, tag, rest, by rw [htext]; rfl, ?_, ?_⟩
      · rw [ofText_of_read?_eq_none hread, hsegments]
        rfl
      · intro front back heq hback
        cases front with
        | nil =>
            rw [List.nil_append] at heq
            rw [← heq, List.cons_append, List.cons_append, ← htext]
            exact hread
        | cons d front => exact hfirst front back (List.cons.inj heq).2 hback

/-! ## Finding segments again -/

theorem pushText_of_tag (before : Text) (tag : Tag) (others : List (Text × Tag)) (rest : Text) :
    pushText before ⟨([], tag) :: others, rest⟩ = ⟨(before, tag) :: others, rest⟩ := by
  induction before with
  | nil => rfl
  | cons c before ih => rw [pushText_cons, ih, push]

theorem ofText_append_opening {before : Text} (h : EndsFirst delimiters.opening before)
    (rest : Text) :
    ofText delimiters (before ++ delimiters.opening ++ rest) =
      pushText before (ofText delimiters (delimiters.opening ++ rest)) := by
  induction before with
  | nil => rfl
  | cons c before ih =>
      obtain ⟨hnone, htail⟩ := endsFirst_cons h
      have hread : Tag.read? delimiters (c :: (before ++ delimiters.opening ++ rest)) = none := by
        rw [Tag.read?, hnone rest]
        rfl
      rw [List.cons_append, List.cons_append, ofText_of_read?_eq_none hread, ih htail,
        pushText_cons]

/-- Each delimiter stands for the first time where it was put, no body holds a line feed,
and no tag can begin behind the last one. -/
structure Legible (delimiters : Delimiters) (segments : Segments) : Prop where
  opening : ∀ part ∈ segments.tags, EndsFirst delimiters.opening part.1
  closing : ∀ part ∈ segments.tags, EndsFirst delimiters.closing part.2.inner
  oneLine : ∀ part ∈ segments.tags, '\n' ∉ part.2.body
  last : ¬ delimiters.opening <:+: segments.rest

theorem ofText_source (hsolid : StartsSolid delimiters.closing) {segments : Segments}
    (h : Legible delimiters segments) :
    ofText delimiters (segments.source delimiters) = segments := by
  obtain ⟨tags, last⟩ := segments
  induction tags with
  | nil =>
      have htags := tags_ofText_of_not_infix h.last
      have hrest := rest_of_tags_eq_nil htags
      simp only [source, List.flatMap_nil, List.nil_append] at htags hrest ⊢
      rcases hs : ofText delimiters last with ⟨tags, rest⟩
      rw [hs] at htags hrest
      simp only at htags hrest
      rw [htags, hrest]
  | cons first others ih =>
      obtain ⟨before, tag⟩ := first
      have hothers : Legible delimiters ⟨others, last⟩ :=
        ⟨fun part hpart => h.opening part (List.mem_cons_of_mem _ hpart),
          fun part hpart => h.closing part (List.mem_cons_of_mem _ hpart),
          fun part hpart => h.oneLine part (List.mem_cons_of_mem _ hpart), h.last⟩
      have hread : Tag.read? delimiters (tag.source delimiters ++
          source delimiters ⟨others, last⟩) = some (tag, source delimiters ⟨others, last⟩) :=
        (Tag.read?_eq_some_iff hsolid).2 ⟨rfl, h.closing (before, tag) List.mem_cons_self,
          h.oneLine (before, tag) List.mem_cons_self⟩
      have hsource : source delimiters ⟨(before, tag) :: others, last⟩ =
          before ++ delimiters.opening ++
            (tag.inner ++ delimiters.closing ++ source delimiters ⟨others, last⟩) := by
        simp [source, Tag.source]
      have hbehind := ofText_of_read? hread
      rw [ih hothers, Tag.source] at hbehind
      rw [hsource, ofText_append_opening (h.opening (before, tag) List.mem_cons_self)]
      simp only [List.append_assoc] at hbehind ⊢
      rw [hbehind, pushText_of_tag]

/-! ## Cutting a template in two -/

theorem append_of_read? {text rest : Text} {tag : Tag} (back : Segments)
    (h : Tag.read? delimiters text = some (tag, rest)) :
    append (ofText delimiters text) back =
      ⟨([], tag) :: (append (ofText delimiters rest) back).tags,
        (append (ofText delimiters rest) back).rest⟩ := by
  rw [ofText_of_read? h]
  rfl

/-- A tag further on shows a closing delimiter behind an opening one. -/
theorem closing_infix_of_tags_ne_nil {text inside : Text} {c : Char}
    (h : (ofText delimiters text).tags ≠ [])
    (hopen : c :: text = delimiters.opening ++ inside) : delimiters.closing <:+: inside := by
  obtain ⟨before, tag, rest, htext, -, -⟩ := exists_first_tag h
  have hlength : delimiters.opening.length ≤
      (c :: before ++ delimiters.opening ++ tag.inner).length := by
    simp only [List.length_append, List.length_cons]
    omega
  have hsplit : c :: text =
      (c :: before ++ delimiters.opening ++ tag.inner) ++ (delimiters.closing ++ rest) := by
    rw [htext]
    simp [Tag.source]
  have hinside : inside = (c :: text).drop delimiters.opening.length := by
    rw [hopen, List.drop_left]
  rw [hinside, hsplit, List.drop_append_of_le_length hlength]
  exact ⟨_, rest, List.append_assoc _ _ _⟩

/-- A tag of the first part cannot come about by what follows: either the tags behind it
show its closing delimiter, or it would begin in the last literal text. -/
theorem read?_append_of_clear (hsolid : StartsSolid delimiters.closing) {c : Char}
    {text : Text} (more : Text)
    (hclear : Clear delimiters.opening (ofText delimiters (c :: text)).rest)
    (hread : Tag.read? delimiters (c :: text) = none) :
    Tag.read? delimiters (c :: text ++ more) = none := by
  by_cases htags : (ofText delimiters (c :: text)).tags = []
  · rw [rest_of_tags_eq_nil htags] at hclear
    have hnone := hclear (c :: text) (List.suffix_refl _) (List.cons_ne_nil c text) more
    rw [Tag.read?, hnone]
    rfl
  · rw [ofText_of_read?_eq_none hread, push_tags_eq_nil_iff] at htags
    cases hafter : after? delimiters.opening (c :: text) with
    | none =>
        -- A text that holds a tag is long enough to show that it does not begin with one.
        have hlength : delimiters.opening.length ≤ (c :: text).length := by
          obtain ⟨before, tag, rest, htext, -, -⟩ := exists_first_tag htags
          rw [htext]
          simp only [Tag.source, List.length_cons, List.length_append]
          omega
        rw [Tag.read?, after?_append_of_length_le more hlength hafter]
        rfl
    | some inside =>
        have hopen := after?_eq_some_iff.1 hafter
        have hclose := closing_infix_of_tags_ne_nil htags hopen
        rw [hopen] at hread ⊢
        exact Tag.read?_append_of_none hsolid more hclose hread

theorem ofText_append (hsolid : StartsSolid delimiters.closing) {front : Text} (back : Text)
    (hclear : Clear delimiters.opening (ofText delimiters front).rest) :
    ofText delimiters (front ++ back) =
      append (ofText delimiters front) (ofText delimiters back) := by
  induction front using ofText_induction delimiters with
  | nil =>
      rw [ofText_nil]
      rfl
  | tag text tag rest hread ih =>
      have hrest : (ofText delimiters text).rest = (ofText delimiters rest).rest := by
        rw [ofText_of_read? hread]
      rw [ofText_of_read? (Tag.read?_append hsolid back hread), ih (hrest ▸ hclear),
        append_of_read? _ hread]
  | literal c text hread ih =>
      have htail : Clear delimiters.opening (ofText delimiters text).rest := by
        rw [ofText_of_read?_eq_none hread] at hclear
        -- The character is part of the last literal text only if no tag follows it.
        by_cases htags : (ofText delimiters text).tags = []
        · rcases hs : ofText delimiters text with ⟨tags, rest⟩
          rw [hs] at htags hclear
          simp only at htags
          subst htags
          exact hclear.of_cons
        · rw [push_rest_of_tags_ne_nil c htags] at hclear
          exact hclear
      have hnone := read?_append_of_clear hsolid back hclear hread
      rw [List.cons_append] at hnone ⊢
      rw [ofText_of_read?_eq_none hnone, ih htail, ofText_of_read?_eq_none hread, push_append]

end TagTemplate.Segments
