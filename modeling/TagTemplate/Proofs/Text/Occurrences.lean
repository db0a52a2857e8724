import Mathlib.Data.List.Infix
import TagTemplate.Text.Basic

/-!
# Places of a token

A token that has no border cannot overlap itself: of two places where it stands, one ends before
the other begins (`Borderless.le_of_occursAt`).  Nor does one overlap another that begins with a
character of its own (`isPrefix_of_not_mem`).
-/

namespace TagTemplate.Text

/-- The token stands in the text from that place on. -/
def OccursAt (token text : Text) (start : Nat) : Prop :=
  token <+: text.drop start

instance (token text : Text) (start : Nat) : Decidable (OccursAt token text start) :=
  inferInstanceAs (Decidable (token <+: text.drop start))

/-- The token stands across that place of the text. -/
def Spans (token text : Text) (place : Nat) : Prop :=
  ∃ start < place, OccursAt token text start ∧ place < start + token.length

instance (token text : Text) (place : Nat) : Decidable (Spans token text place) :=
  inferInstanceAs (Decidable (∃ start < place, _ ∧ _))

/-- No part but the token itself both begins and ends the token. -/
def Borderless (token : Text) : Prop :=
  ∀ part, part <+: token → part <:+ token → part ≠ [] → part = token

instance (token : Text) : Decidable (Borderless token) :=
  decidable_of_iff (∀ part ∈ token.inits, part <:+ token → part ≠ [] → part = token)
    (forall_congr' fun _ => by rw [List.mem_inits])

variable {token front text back : Text} {c : Char} {start : Nat}

theorem occursAt_zero : OccursAt token text 0 ↔ token <+: text := by
  rw [OccursAt, List.drop_zero]

theorem occursAt_cons_succ :
    OccursAt token (c :: text) (start + 1) ↔ OccursAt token text start := by
  rw [OccursAt, OccursAt, List.drop_succ_cons]

theorem occursAt_append_add :
    OccursAt token (front ++ text) (front.length + start) ↔ OccursAt token text start := by
  rw [OccursAt, OccursAt, List.drop_length_add_append]

theorem OccursAt.append (h : OccursAt token text start) (back : Text) :
    OccursAt token (text ++ back) start := by
  rw [OccursAt, List.drop_append]
  exact h.trans (List.prefix_append _ _)

theorem OccursAt.of_append (h : OccursAt token (text ++ back) start)
    (hlength : start + token.length ≤ text.length) : OccursAt token text start := by
  have hdrop : (text ++ back).drop start = text.drop start ++ back :=
    List.drop_append_of_le_length (by omega)
  rw [OccursAt, hdrop] at h
  refine List.prefix_of_prefix_length_le h (List.prefix_append _ back) ?_
  rw [List.length_drop]
  omega

theorem OccursAt.add_length_le (h : OccursAt token text start) (hne : token ≠ []) :
    start + token.length ≤ text.length := by
  have hlength := h.length_le
  have hpos := List.length_pos_iff.2 hne
  rw [List.length_drop] at hlength
  omega

theorem isInfix_of_occursAt (h : OccursAt token text start) : token <:+: text :=
  List.IsPrefix.isInfix h |>.trans (List.drop_suffix start text).isInfix

/-- A token does not stand where a character is that it lacks. -/
theorem OccursAt.not_covers (h : OccursAt token (front ++ c :: back) start) (hc : c ∉ token) :
    start + token.length ≤ front.length ∨ front.length < start := by
  by_contra hcovers
  rw [not_or, not_le, not_lt] at hcovers
  apply hc
  obtain ⟨rest, hrest⟩ := h
  have hplace : ((front ++ c :: back).drop start)[front.length - start]? = some c := by
    rw [List.getElem?_drop, Nat.add_sub_cancel' hcovers.2]
    simp
  rw [← hrest, List.getElem?_append_left (by omega)] at hplace
  exact List.mem_of_getElem? hplace

theorem isPrefix_of_not_mem (hc : c ∉ token) (h : token <+: front ++ c :: back) :
    token <+: front := by
  have hplace := occursAt_zero.2 h
  have hlength := (hplace.not_covers hc).resolve_right (Nat.not_lt_zero _)
  exact occursAt_zero.1 (hplace.of_append hlength)

/-- A token without a border does not overlap itself. -/
theorem Borderless.le_of_occursAt {first second : Nat} (h : Borderless token)
    (hfirst : OccursAt token text first) (hsecond : OccursAt token text second)
    (hlt : first < second) : first + token.length ≤ second := by
  by_contra hoverlap
  have hlength : (token.drop (second - first)).length = token.length - (second - first) :=
    List.length_drop
  have hinside : token.drop (second - first) <+: text.drop second := by
    have hdrop := List.IsPrefix.drop hfirst (second - first)
    rwa [List.drop_drop, Nat.add_sub_cancel' hlt.le] at hdrop
  have hbegins : token.drop (second - first) <+: token :=
    List.prefix_of_prefix_length_le hinside hsecond (by omega)
  have hne : token.drop (second - first) ≠ [] := by
    rw [← List.length_pos_iff]
    omega
  have hborder := congrArg List.length (h _ hbegins (List.drop_suffix _ token) hne)
  omega

/-! ## Tokens that stand nowhere -/

/-- No such text stands in the text. -/
def Lacks (isTag : Text → Prop) (text : Text) : Prop :=
  ∀ tag, isTag tag → ¬ tag <:+: text

theorem lacks_cons_iff {isTag : Text → Prop} {c : Char} {text : Text} :
    Lacks isTag (c :: text) ↔ (∀ tag, isTag tag → ¬ tag <+: c :: text) ∧ Lacks isTag text := by
  simp only [Lacks, List.infix_cons_iff, not_or, imp_and, forall_and]

end TagTemplate.Text
