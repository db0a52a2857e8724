import TagTemplate.Proofs.Tag.FragmentLaw
import TagTemplate.Proofs.Template.Output

/-!
# Braces of compiled templates

Where the template itself has no braces, every brace of the compiled template was put
there by a tag.  The depth of blocks is a law of target code (`depthLaw`), so a tag leads
from one depth to the next, and a template whose tags nest well compiles to code whose
braces do.
-/

namespace TagTemplate

open Text

theorem mem_braceless {text : Text} :
    Braceless text ↔ ∀ c ∈ text, c ≠ '\x7b' ∧ c ≠ '\x7d' := by
  constructor
  · rintro ⟨hopen, hclose⟩ c hc
    constructor
    · rintro rfl
      exact hopen hc
    · rintro rfl
      exact hclose hc
  · intro h
    exact ⟨fun hopen => (h _ hopen).1 rfl, fun hclose => (h _ hclose).2 rfl⟩

theorem depthLaw : CodeLaw Braceless (fun start stop text => depth? start text = some stop)
    (fun start stop text => depth? start text = some stop) True := by
  apply CodeLaw.uniform
  case part =>
    exact fun h hpart => ⟨fun hc => h.1 (hpart.subset hc), fun hc => h.2 (hpart.subset hc)⟩
  case symbols =>
    intro text h
    rw [mem_braceless] at h ⊢
    apply Operator.mem_rewrite h
    intro entry _ c hc
    have hsymbol : Braceless entry.2.symbol := by
      cases entry.2 <;> decide
    exact mem_braceless.1 hsymbol c hc
  case dollars =>
    intro text h
    exact ⟨fun hc => h.1 (List.mem_of_mem_filter hc), fun hc => h.2 (List.mem_of_mem_filter hc)⟩
  case ofPiece => exact fun h depth => h.depth?_eq depth
  case append =>
    intro start middle stop front back hfront hback
    rw [depth?_append, hfront]
    exact hback
  case fixed => exact fun _ hdepth => hdepth
  case trim =>
    intro text h depth
    obtain ⟨left, right, hleft, hright, heq⟩ := exists_eq_append_trim text
    have hdepth := h depth
    rw [heq, depth?_append, depth?_append, (braceless_of_allBlank hleft).depth?_eq] at hdepth
    obtain ⟨middle, hmiddle, hrest⟩ := Option.bind_eq_some_iff.1 hdepth
    rw [(braceless_of_allBlank hright).depth?_eq] at hrest
    rw [← hrest]
    exact hmiddle
  case path =>
    intro text part _ hchars hpart depth
    have hplain : ∀ c, Filter.isSegmentChar c = false → c ≠ '.' → c ∉ part := by
      intro c hsegment hdot hc
      rcases hchars c (hpart c hc) with hchar | hchar
      · rw [hsegment] at hchar
        cases hchar
      · exact hdot hchar
    have hbraceless : Braceless part :=
      ⟨hplain _ (by decide +kernel) (by decide), hplain _ (by decide +kernel) (by decide)⟩
    exact hbraceless.depth?_eq depth

/-! ## Nesting -/

namespace Kind

/-- A tag of this kind opens a block of its own. -/
def isBlock : Kind → Bool
  | ifTag | foreachTag | sectionTag => true
  | _ => false

/-- The blocks that are open behind a tag, the innermost one first: an end needs an open
block, and so do the branches of a condition. -/
def nest? (stack : List Kind) (kind : Kind) : Option (List Kind) :=
  if kind.isBlock then some (kind :: stack)
  else
    match kind with
    | endTag => stack.tail?
    | elseTag | elseIfTag => if stack.isEmpty then none else some stack
    | _ => some stack

def nestAll? (stack : List Kind) (kinds : List Kind) : Option (List Kind) :=
  kinds.foldlM nest? stack

/-- Every end ends a block, every branch stands in one, and every block ends. -/
def WellNested (kinds : List Kind) : Prop :=
  nestAll? [] kinds = some []

instance (kinds : List Kind) : Decidable (WellNested kinds) :=
  inferInstanceAs (Decidable (nestAll? [] kinds = some []))

/-- The stack has the depth at which the fragment of the kind makes sense. -/
theorem length_of_nest? {stack stack' : List Kind} {kind : Kind}
    (h : nest? stack kind = some stack') :
    ∃ depth, stack.length = depth + kind.closes ∧ stack'.length = depth + kind.opens := by
  cases kind with
  | ifTag | foreachTag | sectionTag =>
      obtain rfl := Option.some.inj h
      exact ⟨stack.length, rfl, rfl⟩
  | endTag =>
      cases stack with
      | nil => cases h
      | cons kind stack =>
          obtain rfl := Option.some.inj h
          exact ⟨stack.length, rfl, rfl⟩
  | elseTag | elseIfTag =>
      cases stack with
      | nil => cases h
      | cons kind stack =>
          obtain rfl := Option.some.inj h
          exact ⟨stack.length, rfl, rfl⟩
  | assignTag | calcTag | printTag | breakTag =>
      obtain rfl := Option.some.inj h
      exact ⟨stack.length, rfl, rfl⟩

/-- What a fragment opens and closes, all told. -/
theorem opens_eq_closes (kind : Kind) :
    (kind.opens : Int) - kind.closes =
      (if kind.isBlock then 1 else 0) - if kind = .endTag then 1 else 0 := by
  cases kind <;> rfl

end Kind

/-! ## Tags and templates -/

namespace Compiler

def kinds (compiler : Compiler) (segments : Segments) : List Kind :=
  segments.bodies.map fun body => (compiler.classify body).kind

theorem depth?_wrap {start stop : Nat} {code : Text} (h : depth? start code = some stop) :
    depth? start (wrap Config.standard code) = some stop := by
  have hopen : Braceless Config.standard.targetOpen := by decide
  have hclose : Braceless Config.standard.targetClose := by decide
  have hfront := braceless_of_allBlank (allBlank_of_pad (frontPad_eq Config.standard code))
  have hback := braceless_of_allBlank (allBlank_of_pad (backPad_eq Config.standard code))
  simp only [wrap_eq, depth?_append, hopen.depth?_eq, hfront.depth?_eq, h, hback.depth?_eq,
    hclose.depth?_eq, Option.bind_some]

/-- The chunk of a tag leads from the blocks that its kind closes to those it opens. -/
theorem depth?_wrapTag {tag : Tag} (h : Braceless tag.body) (depth : Nat) :
    depth? (depth + (standard.classify tag.body).kind.closes) (standard.wrapTag tag) =
      some (depth + (standard.classify tag.body).kind.opens) := by
  apply depth?_wrap
  refine depthLaw.fragment _ (by decide) ?_ (fun _ _ _ => trivial) depth
  intro hkind
  rw [mem_braceless] at h ⊢
  intro c hc
  rcases Reading.mem_expression hkind hc with hc | rfl | rfl | hc
  · exact h c hc
  · decide
  · decide
  · exact mem_braceless.1 (show Braceless Config.standard.metaMark by decide) c hc

/-- No literal text and no tag body of the template has a brace. -/
def BracelessSegments (segments : Segments) : Prop :=
  ∀ text ∈ segments.literals ++ segments.bodies, Braceless text

instance (segments : Segments) : Decidable (BracelessSegments segments) :=
  inferInstanceAs (Decidable (∀ text ∈ segments.literals ++ segments.bodies, Braceless text))

theorem BracelessSegments.cons {part : Text × Tag} {tags : List (Text × Tag)} {rest : Text}
    (h : BracelessSegments ⟨part :: tags, rest⟩) :
    Braceless part.1 ∧ Braceless part.2.body ∧ BracelessSegments ⟨tags, rest⟩ := by
  refine ⟨h _ ?_, h _ ?_, ?_⟩
  · exact List.mem_append_left _ (Segments.mem_literals_of_mem_tags List.mem_cons_self)
  · exact List.mem_append_right _ (Segments.mem_bodies_of_mem_tags List.mem_cons_self)
  · intro text htext
    apply h
    rcases List.mem_append.1 htext with htext | htext
    · exact List.mem_append_left _ (List.mem_cons_of_mem _ htext)
    · exact List.mem_append_right _ (List.mem_cons_of_mem _ htext)

/-- Every tag counts for itself, whatever the order of the tags. -/
theorem count_splice {segments : Segments} (h : BracelessSegments segments) :
    ((segments.splice standard.wrapTag).count '\x7b' : Int) -
        (segments.splice standard.wrapTag).count '\x7d' =
      (standard.kinds segments).countP Kind.isBlock - (standard.kinds segments).count .endTag := by
  obtain ⟨tags, rest⟩ := segments
  induction tags with
  | nil =>
      have hrest : Braceless rest := h rest (by simp [Segments.literals])
      have hcount := count_of_depth? (hrest.depth?_eq 0)
      simp only [Segments.splice, kinds, Segments.bodies, List.flatMap_nil, List.nil_append,
        List.map_nil, List.countP_nil, List.count_nil]
      omega
  | cons part tags ih =>
      obtain ⟨hbefore, hbody, htail⟩ := h.cons
      have hkinds : standard.kinds ⟨part :: tags, rest⟩ =
          (standard.classify part.2.body).kind :: standard.kinds ⟨tags, rest⟩ := rfl
      have hliteral := count_of_depth? (hbefore.depth?_eq 0)
      have hchunk := count_of_depth? (depth?_wrapTag hbody 0)
      have hkind := Kind.opens_eq_closes (standard.classify part.2.body).kind
      have hothers := ih htail
      rw [Segments.splice_cons, hkinds, List.countP_cons, List.count_cons]
      simp only [List.count_append, beq_iff_eq]
      split at hkind <;> split at hkind <;> simp_all <;> omega

/-- Tags that nest lead from the depth of the stack to the depth of the stack. -/
theorem depth?_splice {segments : Segments} (h : BracelessSegments segments)
    {stack stack' : List Kind}
    (hnest : Kind.nestAll? stack (standard.kinds segments) = some stack') :
    depth? stack.length (segments.splice standard.wrapTag) = some stack'.length := by
  obtain ⟨tags, rest⟩ := segments
  induction tags generalizing stack with
  | nil =>
      have hrest : Braceless rest := h rest (by simp [Segments.literals])
      obtain rfl := Option.some.inj hnest
      exact hrest.depth?_eq stack.length
  | cons part tags ih =>
      obtain ⟨hbefore, hbody, htail⟩ := h.cons
      have hsteps : (Kind.nest? stack (standard.classify part.2.body).kind).bind
          (fun middle => Kind.nestAll? middle (standard.kinds ⟨tags, rest⟩)) = some stack' := hnest
      obtain ⟨middle, hstep, hothers⟩ := Option.bind_eq_some_iff.1 hsteps
      obtain ⟨depth, hstart, hmiddle⟩ := Kind.length_of_nest? hstep
      rw [Segments.splice_cons, depth?_append, depth?_append, hbefore.depth?_eq, Option.bind_some,
        hstart, depth?_wrapTag hbody depth, Option.bind_some, ← hmiddle]
      exact ih htail hothers

/-- Balanced tags give balanced braces: of a template without braces of its own, the code
has a surplus of opening braces for each block that is opened and not ended.  If the tags
nest, no part of the code from its start on closes more blocks than it opens. -/
theorem compile_braces (source : Text) (hplain : BracelessSegments (standard.segments source)) :
    ((standard.compile source).count '\x7b' : Int) - (standard.compile source).count '\x7d' =
        (standard.kinds (standard.segments source)).countP Kind.isBlock -
          (standard.kinds (standard.segments source)).count .endTag ∧
      (Kind.WellNested (standard.kinds (standard.segments source)) →
        (∀ front, front <+: standard.compile source → front.count '\x7d' ≤ front.count '\x7b') ∧
        (standard.compile source).count '\x7b' = (standard.compile source).count '\x7d') := by
  refine ⟨count_splice hplain, ?_⟩
  intro hnested
  have hdepth : depth? 0 (standard.compile source) = some 0 := depth?_splice hplain hnested
  constructor
  · intro front hfront
    have hcount := count_le_of_depth? hdepth hfront
    omega
  · have hcount := count_of_depth? hdepth
    omega

/-- A condition with two branches in a loop. -/
theorem compile_braces_of_branches_in_loop :
    let code := standard.compile
      ("\x7b% foreach $rows as $row %\x7d\x7b% if $row %\x7da\x7b% else %\x7db" ++
        "\x7b% /if %\x7d\x7b% / %\x7d").toList
    (∀ front, front <+: code → front.count '\x7d' ≤ front.count '\x7b') ∧
      code.count '\x7b' = code.count '\x7d' :=
  (compile_braces _ (by decide +kernel)).2 (by decide +kernel)

end Compiler

end TagTemplate
