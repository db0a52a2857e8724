import TagTemplate.Proofs.Table
import TagTemplate.Proofs.Text.Parts
import TagTemplate.Tag.Reading

/-!
# What tags take from their bodies

A tag body is read without making up text: the expression has only characters of the
body, and the variables and values that a handler puts into its code stand in the
expression, up to dollar signs, or are the word for a missing attribute.
-/

namespace TagTemplate

namespace Attributes

open Text

/-- The part stands in the expression, or would if the expression had no dollar signs, or it
stands for an attribute that is missing. -/
def TakenFrom (expression part : Text) : Prop :=
  part = missing ∨ part <:+: expression ∨ part <:+: Sigil.dropDollars expression

theorem value?_read_isInfix {body key value : Text} (h : (read body).value? key = some value) :
    value <:+: Sigil.dropDollars body := by
  rw [value?, Option.join_eq_some_iff] at h
  obtain ⟨word, hword, hof⟩ := List.mem_map.1 (Table.mem_of_find?_ofList h)
  unfold ofWord at hof
  split at hof
  · cases hof
  · rename_i written hcut
    simp only [Prod.mk.injEq, Option.some.injEq] at hof
    obtain ⟨-, rfl⟩ := hof
    have hwritten : written <:+: word := by
      rw [(eq_of_cutFirst? hcut).1]
      exact ⟨_, [], by rw [List.append_nil, List.append_cons]⟩
    exact (hwritten.trans (isInfix_of_mem_words hword)).filter _

theorem takenFrom_value (body key : Text) :
    TakenFrom body (((read body).value? key).getD missing) := by
  cases hvalue : (read body).value? key with
  | none => exact Or.inl rfl
  | some value => exact Or.inr (Or.inr (value?_read_isInfix hvalue))

theorem takenFrom_of_ident? {body key part : Text} (h : (read body).ident? key = some part) :
    TakenFrom body part := by
  obtain ⟨value, hvalue, rfl⟩ := Option.map_eq_some_iff.1 h
  exact Or.inr (Or.inr ((stripQuotes_isInfix value).trans (value?_read_isInfix hvalue)))

theorem takenFrom_ident (body key : Text) :
    TakenFrom body (((read body).ident? key).getD missing) := by
  cases hident : (read body).ident? key with
  | none => exact Or.inl rfl
  | some part => exact takenFrom_of_ident? hident

end Attributes

namespace Loop

open Text Attributes

theorem target?_isInfix {text target : Text} (h : target? text = some target) :
    target <:+: text := by
  unfold target? at h
  split at h
  · obtain ⟨rest, hrest, h⟩ := Option.bind_eq_some_iff.1 h
    have hsuffix : rest <:+: text := by
      have htrim := trimStart_isInfix text
      rw [after?_eq_some_iff.1 hrest] at htrim
      exact (List.infix_append_right).trans htrim
    dsimp only at h
    split at h
    · split at h
      · obtain rfl := Option.some.inj h
        exact List.nil_infix
      · cases h
    · split at h
      · cases h
      · obtain rfl := Option.some.inj h
        exact (trimEnd_isInfix _).trans ((trimStart_isInfix rest).trans hsuffix)
  · cases h

theorem splitAs?_eq_some {text collection target : Text}
    (h : splitAs? text = some (collection, target)) :
    ∃ rest, text = collection ++ rest ∧ target? rest = some target := by
  induction text generalizing collection with
  | nil => cases h
  | cons c text ih =>
      simp only [splitAs?] at h
      split at h
      · cases h
      · split at h
        · rename_i htarget
          simp only [Option.some.injEq, Prod.mk.injEq] at h
          obtain ⟨rfl, rfl⟩ := h
          exact ⟨text, rfl, htarget⟩
        · obtain ⟨⟨front, back⟩, hfound, heq⟩ := Option.map_eq_some_iff.1 h
          simp only [Prod.mk.injEq] at heq
          obtain ⟨rfl, rfl⟩ := heq
          obtain ⟨rest, rfl, htarget⟩ := ih hfound
          exact ⟨rest, rfl, htarget⟩

theorem splitAs?_isInfix {text collection target : Text}
    (h : splitAs? text = some (collection, target)) :
    collection <+: text ∧ target <:+: text := by
  obtain ⟨rest, rfl, htarget⟩ := splitAs?_eq_some h
  exact ⟨List.prefix_append _ _,
    (target?_isInfix htarget).trans (List.suffix_append collection rest).isInfix⟩

theorem afterArrow?_isInfix {text rest : Text} (h : afterArrow? text = some rest) :
    rest <:+: text := by
  rcases Option.or_eq_some_iff.1 h with h | ⟨-, h⟩
  · rw [after?_eq_some_iff.1 h]
    exact List.infix_append_right
  · rw [after?_eq_some_iff.1 h]
    exact List.infix_append_right

theorem splitArrow?_isInfix {text key item : Text} (h : splitArrow? text = some (key, item)) :
    key <+: text ∧ item <:+: text := by
  induction text generalizing key with
  | nil => cases h
  | cons c text ih =>
      simp only [splitArrow?] at h
      split at h
      · rename_i harrow
        simp only [Option.some.injEq, Prod.mk.injEq] at h
        obtain ⟨rfl, rfl⟩ := h
        exact ⟨List.nil_prefix, afterArrow?_isInfix harrow⟩
      · obtain ⟨⟨front, rest⟩, hfound, heq⟩ := Option.map_eq_some_iff.1 h
        simp only [Prod.mk.injEq] at heq
        obtain ⟨rfl, rfl⟩ := heq
        exact ⟨(List.prefix_cons_inj c).2 (ih hfound).1, List.infix_cons (ih hfound).2⟩

/-- The collection and the variables of a loop. -/
def parts (loop : Loop) : List Text :=
  loop.collection :: loop.item :: loop.key.toList

theorem isInfix_of_mem_ofTarget {collection target part : Text}
    (h : part ∈ (ofTarget collection target).parts) :
    part = collection ∨ part <:+: target := by
  unfold ofTarget at h
  split at h
  · simp only [parts, Option.toList_none, List.mem_cons, List.not_mem_nil, or_false] at h
    rcases h with rfl | rfl
    · exact Or.inl rfl
    · exact Or.inr (List.infix_refl _)
  · rename_i hsplit
    obtain ⟨hkey, hitem⟩ := splitArrow?_isInfix hsplit
    simp only [parts, Option.toList_some, List.mem_cons, List.not_mem_nil, or_false] at h
    rcases h with rfl | rfl | rfl
    · exact Or.inl rfl
    · exact Or.inr ((trimStart_isInfix _).trans hitem)
    · exact Or.inr ((trimEnd_isInfix _).trans hkey.isInfix)

theorem takenFrom_of_mem_parts {expression part : Text} (h : part ∈ (read expression).parts) :
    TakenFrom expression part := by
  unfold read at h
  split at h
  · rename_i hsplit
    obtain ⟨hcollection, htarget⟩ := splitAs?_isInfix hsplit
    rcases isInfix_of_mem_ofTarget h with rfl | hpart
    · exact Or.inr (Or.inl ((trim_isInfix _).trans hcollection.isInfix))
    · exact Or.inr (Or.inl (hpart.trans htarget))
  · simp only [parts, ofAttributes, List.mem_cons] at h
    rcases h with rfl | rfl | h
    · exact takenFrom_ident expression _
    · exact takenFrom_ident expression _
    · exact takenFrom_of_ident? (Option.mem_toList.1 h)

end Loop

namespace Sigil

theorem mem_normalize {metaMark raw : Text} {c : Char} (h : c ∈ normalize metaMark raw) :
    c ∈ raw ∨ c = '.' ∨ c ∈ metaMark := by
  induction raw with
  | nil => cases h
  | cons d raw ih =>
      have hrest : c ∈ normalize metaMark raw → c ∈ d :: raw ∨ c = '.' ∨ c ∈ metaMark :=
        fun h => (ih h).imp_left (List.mem_cons_of_mem d)
      simp only [normalize] at h
      split at h
      · exact hrest h
      · split at h
        · rcases List.mem_cons.1 h with rfl | h
          · exact Or.inr (Or.inl rfl)
          · rcases List.mem_append.1 h with h | h
            · exact Or.inr (Or.inr h)
            · exact hrest h
        · rcases List.mem_cons.1 h with rfl | h
          · exact Or.inl List.mem_cons_self
          · exact hrest h

end Sigil

namespace Reading

open Text

theorem ofKeyword_words (kind : Kind) (rest : List Text) :
    ∃ words, words <:+ rest ∧ (ofKeyword kind rest).2 = ofWords words := by
  unfold ofKeyword
  split
  · rename_i word condition
    split
    · exact ⟨condition, List.suffix_cons word condition, rfl⟩
    · exact ⟨word :: condition, List.suffix_refl _, rfl⟩
  · exact ⟨[], List.suffix_refl _, rfl⟩

/-- A body without a keyword is its own expression, unless it ends a block. -/
theorem ofShape_expression {body : Text} (h : (ofShape body).1 ≠ .endTag) :
    (ofShape body).2 = body := by
  unfold ofShape at h ⊢
  split at h
  · rename_i hplain
    rw [if_pos hplain]
  · rename_i hplain
    rw [if_neg hplain]
    split at h
    · exact absurd rfl h
    · rename_i hslash
      rw [if_neg hslash]
      split <;> rfl

/-- The expression is the trimmed body, or words of it joined by single spaces. -/
theorem raw_expression {body : Text} (h : (raw body).1 ≠ .endTag) :
    (raw body).2 = trim body ∨
      ∃ words, words <:+ Text.words body ∧ (raw body).2 = ofWords words := by
  unfold raw at h ⊢
  cases hwords : words body with
  | nil => exact Or.inr ⟨[], List.suffix_refl _, rfl⟩
  | cons first rest =>
      simp only [hwords] at h ⊢
      cases hkeyword : Kind.ofKeyword? first with
      | some kind =>
          obtain ⟨words, hsuffix, heq⟩ := ofKeyword_words kind rest
          exact Or.inr ⟨words, hsuffix.trans (List.suffix_cons first rest), heq⟩
      | none =>
          rw [hkeyword] at h
          exact Or.inl (ofShape_expression h)

theorem mem_expression {metaMark body : Text} {c : Char}
    (hkind : (ofBody metaMark body).kind ≠ .endTag)
    (hc : c ∈ (ofBody metaMark body).expression) :
    c ∈ body ∨ c = ' ' ∨ c = '.' ∨ c ∈ metaMark := by
  have hnormal : c ∈ Sigil.normalize metaMark (raw body).2 := hc
  rcases Sigil.mem_normalize hnormal with hc | hc
  · rcases raw_expression hkind with heq | ⟨words, hsuffix, heq⟩
    · rw [heq] at hc
      exact Or.inl ((trim_isInfix body).subset hc)
    · rw [heq] at hc
      rcases mem_intercalate hc with hc | ⟨word, hword, hc⟩
      · exact Or.inr (Or.inl (List.mem_singleton.1 hc))
      · exact Or.inl ((isInfix_of_mem_words (hsuffix.subset hword)).subset hc)
  · exact Or.inr (Or.inr hc)

end Reading

end TagTemplate
