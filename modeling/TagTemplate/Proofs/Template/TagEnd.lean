import TagTemplate.Proofs.Text.Token
import TagTemplate.Proofs.Text.Trim
import TagTemplate.Template.Segments

/-!
# Where a tag ends

The search for the end of a tag looks at blanks before and behind the body and stops at
line feeds.  If the closing delimiter does not begin with a blank this comes to a short
rule: a tag ends at the first closing delimiter behind the opening one, and it is a tag
if its body holds no line feed (`Tag.read?_eq_some_iff`).
-/

namespace TagTemplate

namespace Text

/-- The token begins with a character that is no blank. -/
def StartsSolid (token : Text) : Prop :=
  ∃ c rest, token = c :: rest ∧ isBlank c = false

theorem StartsSolid.ne_nil {token : Text} (h : StartsSolid token) : token ≠ [] := by
  obtain ⟨c, rest, rfl, -⟩ := h
  exact List.cons_ne_nil c rest

theorem after?_eq_none_of_isBlank {token : Text} (hsolid : StartsSolid token) {c : Char}
    (hc : isBlank c = true) (text : Text) : after? token (c :: text) = none := by
  obtain ⟨d, rest, rfl, hd⟩ := hsolid
  have hne : d ≠ c := by
    rintro rfl
    rw [hd] at hc
    cases hc
  simp [after?, hne]

theorem head?_afterBlanks {token : Text} (hsolid : StartsSolid token) (text : Text) :
    (afterBlanks token text).head? =
      (after? token (trimStart text)).map fun rest => (text.takeWhile isBlank, rest) := by
  induction text with
  | nil => simp [afterBlanks, trimStart]
  | cons c text ih =>
      by_cases hc : isBlank c = true
      · have hnone := after?_eq_none_of_isBlank hsolid hc text
        simp only [afterBlanks, hc, hnone, if_true, Option.map_none, Option.toList_none,
          List.append_nil, List.head?_map, ih, trimStart, List.dropWhile_cons,
          List.takeWhile_cons, Option.map_map]
        rfl
      · simp [afterBlanks, hc, trimStart]

theorem afterBlanks_append {token blanks : Text} (hsolid : StartsSolid token)
    (h : AllBlank blanks) (rest : Text) :
    afterBlanks token (blanks ++ (token ++ rest)) = [(blanks, rest)] := by
  induction blanks with
  | nil =>
      have hafter := after?_append token rest
      obtain ⟨c, tail, rfl, hc⟩ := hsolid
      rw [List.cons_append] at hafter
      simp [afterBlanks, hc, hafter]
  | cons c blanks ih =>
      have hc : isBlank c = true := h c List.mem_cons_self
      have hblanks : AllBlank blanks := fun d hd => h d (List.mem_cons_of_mem c hd)
      simp [afterBlanks, hc, ih hblanks, after?_eq_none_of_isBlank hsolid hc]

theorem cutToken?_append_of_allBlank {token front : Text} (hsolid : StartsSolid token)
    (hfront : AllBlank front) (text : Text) :
    cutToken? token (front ++ text) =
      (cutToken? token text).map fun (before, rest) => (front ++ before, rest) := by
  induction front with
  | nil => simp
  | cons c front ih =>
      have hc : isBlank c = true := hfront c List.mem_cons_self
      have htail : AllBlank front := fun d hd => hfront d (List.mem_cons_of_mem c hd)
      rw [List.cons_append, cutToken?_cons (after?_eq_none_of_isBlank hsolid hc _), ih htail,
        Option.map_map]
      rfl

/-- A closing delimiter behind nothing but blanks is met at the end of these blanks. -/
theorem after?_trimStart_of_cutToken? {token text front rest : Text}
    (hsolid : StartsSolid token) (h : cutToken? token text = some (front, rest))
    (hfront : AllBlank front) : after? token (trimStart text) = some rest := by
  obtain ⟨c, tail, rfl, hc⟩ := hsolid
  rw [eq_of_cutToken? h, List.append_assoc, trimStart_append_of_allBlank hfront]
  have hstay : trimStart (c :: tail ++ rest) = c :: tail ++ rest := by
    simp [trimStart, hc]
  rw [hstay]
  exact after?_append _ _

end Text

namespace Tag

open Text

/-- The text between two delimiters makes a tag if, without the blanks around it, it
holds no line feed. -/
def isInner (inner : Text) : Bool :=
  !(trim inner).contains '\n'

/-- One step of the search: where blanks and a closing delimiter cannot be read, the
character becomes part of the tag unless it is a line feed. -/
theorem innerFrom_cons_of_none {closing text : Text} {c : Char} (hsolid : StartsSolid closing)
    (ready : Bool) (h : after? closing (trimStart (c :: text)) = none) :
    innerFrom closing ready (c :: text) =
      if c = '\n' then none
      else (innerFrom closing (!isBlank c) text).map fun (inner, rest) => (c :: inner, rest) := by
  have hhead : (afterBlanks closing (c :: text)).head? = none := by
    rw [head?_afterBlanks hsolid, h]
    rfl
  simp only [innerFrom, hhead, ite_self]

theorem innerFrom_of_some {closing text rest : Text} {c : Char} (hsolid : StartsSolid closing)
    (h : after? closing (trimStart (c :: text)) = some rest) :
    innerFrom closing true (c :: text) = some ((c :: text).takeWhile isBlank, rest) := by
  have hhead : (afterBlanks closing (c :: text)).head? =
      some ((c :: text).takeWhile isBlank, rest) := by
    rw [head?_afterBlanks hsolid, h]
    rfl
  simp only [innerFrom, Bool.true_or, if_true, hhead]

/-- In the middle of a run of blanks the search is not `ready`; then it is known that no
closing delimiter follows this run. -/
theorem innerFrom_eq {closing : Text} (hsolid : StartsSolid closing) (text : Text)
    (ready : Bool) (hready : ready = true ∨ after? closing (trimStart text) = none) :
    innerFrom closing ready text =
      (cutToken? closing text).filter fun found => !(trimEnd found.1).contains '\n' := by
  induction text generalizing ready with
  | nil =>
      have hnone : after? closing [] = none := by
        rw [after?_eq_none_iff, List.prefix_nil]
        exact hsolid.ne_nil
      simp [innerFrom, cutToken?, hnone]
  | cons c text ih =>
      cases hstart : after? closing (trimStart (c :: text)) with
      | some rest =>
          obtain rfl : ready = true := by
            rcases hready with hready | hready
            · exact hready
            · rw [hstart] at hready
              cases hready
          have hblank := allBlank_takeWhile (c :: text)
          have hcut : cutToken? closing (c :: text) =
              some ((c :: text).takeWhile isBlank, rest) := by
            have happend := cutToken?_append_of_allBlank hsolid hblank (trimStart (c :: text))
            rw [cutToken?_of_after? hstart] at happend
            simpa [trimStart] using happend
          rw [innerFrom_of_some hsolid hstart, hcut]
          simp [Option.filter, trimEnd_eq_nil_iff.2 hblank]
      | none =>
          have hhere : after? closing (c :: text) = none := by
            by_cases hc : isBlank c = true
            · exact after?_eq_none_of_isBlank hsolid hc text
            · simpa [trimStart, hc] using hstart
          have hnext : (!isBlank c) = true ∨ after? closing (trimStart text) = none := by
            by_cases hc : isBlank c = true
            · exact Or.inr (by simpa [trimStart, hc] using hstart)
            · exact Or.inl (by simpa using hc)
          rw [innerFrom_cons_of_none hsolid ready hstart, ih _ hnext, cutToken?_cons hhere]
          cases hcut : cutToken? closing text with
          | none => simp
          | some parts =>
              obtain ⟨front, rest⟩ := parts
              have hfront : ¬ (trimEnd front = [] ∧ isBlank c = true) := by
                rintro ⟨hnil, hc⟩
                have hmet := after?_trimStart_of_cutToken? hsolid hcut
                  (trimEnd_eq_nil_iff.1 hnil)
                simp only [trimStart, List.dropWhile_cons, hc, if_true] at hstart hmet
                rw [hstart] at hmet
                cases hmet
              by_cases hline : c = '\n'
              · simp [hline, Option.filter, trimEnd_cons, hline ▸ hfront]
              · by_cases hmem : '\n' ∈ trimEnd front <;>
                  simp [hline, Ne.symm hline, Option.filter, trimEnd_cons, hfront, hmem]

theorem inner?_eq {closing : Text} (hsolid : StartsSolid closing) (text : Text) :
    inner? closing text = (cutToken? closing text).filter fun found => isInner found.1 := by
  induction text with
  | nil =>
      have hnone : after? closing [] = none := by
        rw [after?_eq_none_iff, List.prefix_nil]
        exact hsolid.ne_nil
      simp [inner?, cutToken?, hnone]
  | cons c text ih =>
      by_cases hc : isBlank c = true
      · have hhere := after?_eq_none_of_isBlank hsolid hc text
        rw [cutToken?_cons hhere]
        simp only [inner?, hc, if_true, hhere, Option.map_none, ih]
        cases cutToken? closing text with
        | none => rfl
        | some parts =>
            obtain ⟨front, rest⟩ := parts
            have htrim : isInner (c :: front) = isInner front := by
              rw [isInner, isInner, trim_cons_of_isBlank hc front]
            by_cases hinner : isInner front = true <;> simp [Option.filter, htrim, hinner]
      · simp only [inner?, hc]
        rw [if_neg (by simp), innerFrom_eq hsolid _ _ (Or.inl rfl)]
        cases hcut : cutToken? closing (c :: text) with
        | none => rfl
        | some parts =>
            obtain ⟨front, rest⟩ := parts
            have hhead : ∀ d ∈ front.head?, isBlank d = false := by
              intro d hd
              rcases cutToken?_cons_eq_some hcut with ⟨rfl, -⟩ | ⟨front', rfl, -, -⟩
              · cases hd
              · obtain rfl := Option.some.inj hd
                simpa using hc
            simp [Option.filter, isInner, trim_eq_trimEnd hhead]

theorem read?_eq_some_iff {delimiters : Delimiters} (hsolid : StartsSolid delimiters.closing)
    {text rest : Text} {tag : Tag} :
    read? delimiters text = some (tag, rest) ↔
      text = tag.source delimiters ++ rest ∧ EndsFirst delimiters.closing tag.inner ∧
        '\n' ∉ tag.body := by
  constructor
  · intro h
    refine ⟨eq_of_read? h, ?_⟩
    obtain ⟨inside, -, h⟩ := Option.bind_eq_some_iff.1 h
    obtain ⟨⟨inner, rest'⟩, hinner, heq⟩ := Option.map_eq_some_iff.1 h
    simp only [Prod.mk.injEq] at heq
    obtain ⟨rfl, rfl⟩ := heq
    rw [inner?_eq hsolid, Option.filter_eq_some_iff] at hinner
    exact ⟨endsFirst_of_cutToken? hinner.1, by simpa [isInner, body] using hinner.2⟩
  · rintro ⟨rfl, hfirst, hline⟩
    have hinner : inner? delimiters.closing (tag.inner ++ delimiters.closing ++ rest) =
        some (tag.inner, rest) := by
      rw [inner?_eq hsolid, hfirst.cutToken? rest]
      simpa [Option.filter, isInner, body] using hline
    have hopen := after?_append delimiters.opening (tag.inner ++ delimiters.closing ++ rest)
    simp only [source, List.append_assoc] at hopen hinner ⊢
    simp [read?, hopen, hinner]

theorem read?_append {delimiters : Delimiters} (hsolid : StartsSolid delimiters.closing)
    {text rest : Text} {tag : Tag} (more : Text)
    (h : read? delimiters text = some (tag, rest)) :
    read? delimiters (text ++ more) = some (tag, rest ++ more) := by
  obtain ⟨htext, hfirst, hline⟩ := (read?_eq_some_iff hsolid).1 h
  refine (read?_eq_some_iff hsolid).2 ⟨?_, hfirst, hline⟩
  rw [htext, List.append_assoc]

/-- Where the first closing delimiter is in sight, more text behind it does not make
a tag of what is none. -/
theorem read?_append_of_none {delimiters : Delimiters}
    (hsolid : StartsSolid delimiters.closing) {inside : Text} (more : Text)
    (hclose : delimiters.closing <:+: inside)
    (h : read? delimiters (delimiters.opening ++ inside) = none) :
    read? delimiters (delimiters.opening ++ inside ++ more) = none := by
  rw [Option.eq_none_iff_forall_ne_some]
  rintro ⟨tag, rest⟩ hread
  obtain ⟨htext, hfirst, hline⟩ := (read?_eq_some_iff hsolid).1 hread
  obtain ⟨front, behind, hcut⟩ := cutToken?_isSome_of_infix hclose
  have hinside : inside ++ more = tag.inner ++ delimiters.closing ++ rest := by
    simpa [source] using htext
  have hsame := cutToken?_append more hcut
  rw [hinside, hfirst.cutToken? rest] at hsame
  obtain ⟨hfront, -⟩ := Prod.mk.inj (Option.some.inj hsame)
  have hthere : read? delimiters (delimiters.opening ++ inside) = some (tag, behind) := by
    refine (read?_eq_some_iff hsolid).2 ⟨?_, hfirst, hline⟩
    rw [eq_of_cutToken? hcut, ← hfront]
    simp [source]
  rw [h] at hthere
  cases hthere

end Tag

end TagTemplate
