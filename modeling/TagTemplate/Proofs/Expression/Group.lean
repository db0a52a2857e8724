import TagTemplate.Proofs.Expression.Decomposition
import TagTemplate.Proofs.Expression.Joined
import TagTemplate.Proofs.Text.Closed

/-!
# Groups

A group is a call without a name, and its arguments end at the first bare closing
parenthesis.  So putting parentheses around an expression takes the first call of the
expression into the arguments, where it is copied; the calls behind it are compiled as
before (`Expression.compile_group_eq`).  So a group keeps what it is put around exactly when
that first call has no name (`Expression.compile_group_iff`).
-/

namespace TagTemplate

open Text

/-! ## Balanced parentheses -/

/-- Outside literals no closing parenthesis comes before the one that it closes, and none is
left open. -/
def Text.Balanced (glyphs : List Glyph) : Prop :=
  (∀ front ∈ glyphs.inits, front.count ⟨')', false⟩ ≤ front.count ⟨'(', false⟩) ∧
    glyphs.count ⟨'(', false⟩ = glyphs.count ⟨')', false⟩

instance (glyphs : List Glyph) : Decidable (Balanced glyphs) :=
  inferInstanceAs (Decidable (_ ∧ _))

namespace Text.Balanced

variable {front back : List Glyph}

theorem open_of_close (h : Balanced (front ++ ⟨')', false⟩ :: back)) : ⟨'(', false⟩ ∈ front := by
  have hle := h.1 (front ++ [⟨')', false⟩]) ((List.mem_inits _ _).2 ⟨back, by simp⟩)
  have hother : [(⟨')', false⟩ : Glyph)].count ⟨'(', false⟩ = 0 := by decide
  rw [List.count_append, List.count_append, List.count_singleton_self, hother] at hle
  exact List.count_pos_iff.1 (by omega)

theorem close_of_open (h : Balanced (front ++ ⟨'(', false⟩ :: back)) : ⟨')', false⟩ ∈ back := by
  have hle := h.1 front ((List.mem_inits _ _).2 (List.prefix_append front _))
  have htotal := h.2
  rw [List.count_append, List.count_append, List.count_cons_self,
    List.count_cons_of_ne (by simp)] at htotal
  exact List.count_pos_iff.1 (by omega)

theorem not_close_of_not_open {glyphs : List Glyph} (h : Balanced glyphs)
    (hopen : ⟨'(', false⟩ ∉ glyphs) : ⟨')', false⟩ ∉ glyphs := by
  rw [← List.count_eq_zero] at hopen ⊢
  exact h.2.symm.trans hopen

end Text.Balanced

/-! ## The call that a group takes in -/

theorem Filter.trim_eq_name {spelling : Text} {filter : Filter} (h : ofName spelling = filter)
    (hfilter : filter ≠ default) : trim spelling = filter.name := by
  rw [ofName] at h
  cases hfind : all.find? fun filter => filter.name == trim spelling with
  | none =>
      rw [hfind] at h
      exact absurd h.symm hfilter
  | some found =>
      rw [hfind] at h
      have hname := List.find?_some hfind
      rw [← h]
      exact (beq_iff_eq.1 hname).symm

/-- Behind its operand, a filter does not leave what a call has around it. -/
theorem Filter.squeeze_code_append_ne {filter : Filter} (h : filter.startsWithOperand = true)
    {operand : Text} (hoperand : Closed operand) (more : Text) :
    squeeze (filter.code operand [] ++ more) ≠
      filter.name ++ "(".toList ++ squeeze operand ++ ")".toList ++ squeeze more := by
  have hguard : Closed " && ".toList := by decide
  have hand : squeeze " && ".toList = "&&".toList := by decide
  have hstringify : Plain ".stringify()".toList := by decide
  have hlength : Plain ".length".toList := by decide
  have hguarded : squeeze (operand ++ " && ".toList ++ operand ++ ".stringify()".toList ++ more) =
      squeeze operand ++ "&&".toList ++ squeeze operand ++ ".stringify()".toList ++
        squeeze more := by
    simp only [List.append_assoc]
    rw [hoperand.squeeze_append, hguard.squeeze_append, hand, hoperand.squeeze_append,
      hstringify.squeeze_append]
  intro heq
  cases filter with
  | escape | highlight =>
      have hsize := congrArg List.length (hguarded.symm.trans heq)
      have hname : escape.name.length = 6 ∧ highlight.name.length = 9 := by decide
      have hfixed : "&&".toList.length = 2 ∧ ".stringify()".toList.length = 12 ∧
          "(".toList.length = 1 ∧ ")".toList.length = 1 := by decide
      simp only [List.length_append] at hsize
      omega
  | count =>
      have hcode : squeeze (operand ++ ".length".toList ++ more) =
          squeeze operand ++ ".length".toList ++ squeeze more := by
        rw [List.append_assoc, hoperand.squeeze_append, hlength.squeeze_append, List.append_assoc]
      have hends := congrArg List.getLast? (List.append_cancel_right (hcode.symm.trans heq))
      rw [List.getLast?_append, List.getLast?_append] at hends
      exact absurd hends (by simp)
  | strpos | isArray | isset | empty | default => cases h

namespace Call

/-- The call as it was written, up to its closing parenthesis. -/
def opened (call : Call) : Text :=
  call.name ++ call.gap ++ "(".toList ++ call.args

theorem source_eq (call : Call) : call.source = call.opened ++ ")".toList := rfl

theorem code_eq {call : Call} (h : ⟨',', false⟩ ∉ marks call.args) :
    call.code = (Filter.ofName call.name).code (trim call.args) [] := by
  rw [code, splitOutside_eq_trim h]
  rfl

theorem code_of_no_name {call : Call} (hname : call.name = [])
    (h : ⟨',', false⟩ ∉ marks call.args) :
    call.code = "(".toList ++ trim call.args ++ ")".toList := by
  have hfilter : Filter.ofName [] = .default := Filter.ofName_name .default
  rw [code_eq h, hname, hfilter]
  rfl

variable {call : Call}

theorem plain_of_isNameChar {name : Text} (h : ∀ c ∈ name, isNameChar c = true) : Plain name :=
  fun c hc => ⟨isQuote_of_isAsciiWord (h c hc), isBlank_of_isAsciiWord (h c hc)⟩

theorem closed_opened (hname : Plain call.name) (hgap : AllBlank call.gap)
    (hargs : Closed call.args) : Closed call.opened :=
  ((hname.closed.append hgap.closed).append (by decide)).append hargs

theorem squeeze_source_append (hname : Plain call.name) (hgap : AllBlank call.gap)
    (hargs : Closed call.args) (more : Text) :
    squeeze (call.source ++ more) =
      call.name ++ "(".toList ++ squeeze call.args ++ ")".toList ++ squeeze more := by
  have hopen : Plain "(".toList := by decide
  have hclose : Plain ")".toList := by decide
  rw [source]
  simp only [List.append_assoc]
  rw [hname.squeeze_append, hgap.closed.squeeze_append, hgap.squeeze, List.nil_append,
    hopen.squeeze_append, hargs.squeeze_append, hclose.squeeze_append]

/-- What a named call compiles to is more than a change of blanks, whatever follows. -/
theorem squeeze_code_append_iff (hname : ∀ c ∈ call.name, isNameChar c = true)
    (hgap : AllBlank call.gap) (hargs : Closed call.args) (hcomma : ⟨',', false⟩ ∉ marks call.args)
    (more : Text) :
    squeeze (call.code ++ more) = squeeze (call.source ++ more) ↔ call.name = [] := by
  have hplain := plain_of_isNameChar hname
  have hopen : Plain "(".toList := by decide
  have hclose : Plain ")".toList := by decide
  rw [squeeze_source_append hplain hgap hargs]
  by_cases hempty : call.name = []
  · refine iff_of_true ?_ hempty
    rw [code_of_no_name hempty hcomma, hempty]
    simp only [List.append_assoc]
    rw [hopen.squeeze_append, hargs.trim.squeeze_append, hclose.squeeze_append, hargs.squeeze_trim,
      List.nil_append]
  · refine iff_of_false (fun heq => ?_) hempty
    rw [code_eq hcomma] at heq
    -- Code that starts with its operand is told apart by its end or its length, since the
    -- operand may spell the call; any other code starts with a parenthesis, which no name does.
    by_cases hstarts : (Filter.ofName call.name).startsWithOperand = true
    · have hfilter : Filter.ofName call.name ≠ .default := by
        intro hdefault
        rw [hdefault] at hstarts
        cases hstarts
      have hspelled : call.name = (Filter.ofName call.name).name := by
        rw [← Filter.trim_eq_name rfl hfilter]
        exact (trim_of_no_blank fun c hc => (hplain c hc).2).symm
      rw [← hargs.squeeze_trim] at heq
      conv_rhs at heq => rw [hspelled]
      exact Filter.squeeze_code_append_ne hstarts hargs.trim more heq
    · have hhead := Filter.head?_code_of_not_startsWithOperand (Bool.eq_false_iff.2 hstarts)
        (trim call.args) []
      obtain ⟨back, hback⟩ := List.head?_eq_some_iff.1 hhead
      obtain ⟨c, name, hcons⟩ := List.exists_cons_of_ne_nil hempty
      have hc : isNameChar c = true := hname c (by rw [hcons]; exact List.mem_cons_self)
      have hparenthesis : Plain ['('] := by decide
      rw [hback, hcons, List.cons_append, ← List.singleton_append,
        hparenthesis.squeeze_append] at heq
      have hhead := (List.cons.inj heq).1
      rw [← hhead] at hc
      exact absurd hc (by decide)

/-! ## The calls of a group -/

/-- A closing parenthesis behind text that opens none is part of the rest. -/
theorem Decomposes.append_close {glyphs : List Glyph} {calls : List (Text × Call)} {rest : Text}
    (h : Decomposes glyphs calls rest)
    (hclosed : ∀ front back, glyphs = front ++ ⟨'(', false⟩ :: back → ⟨')', false⟩ ∈ back) :
    Decomposes (glyphs ++ [⟨')', false⟩]) calls (rest ++ ")".toList) := by
  induction h with
  | @rest glyphs hnone =>
      -- The new parenthesis could close one that `glyphs` opens, but that one is closed already.
      have hrest : ofGlyphs glyphs ++ ")".toList = ofGlyphs (glyphs ++ [⟨')', false⟩]) := by
        rw [ofGlyphs_append]
        rfl
      rw [hrest]
      refine .rest fun front back heq hclose => ?_
      have hmem : ⟨'(', false⟩ ∈ glyphs ++ [(⟨')', false⟩ : Glyph)] := by
        rw [heq]
        simp
      have hglyphs : ⟨'(', false⟩ ∈ glyphs := by simpa using hmem
      obtain ⟨left, right, hopen⟩ := List.append_of_mem hglyphs
      exact hnone left right hopen (hclosed left right hopen)
  | @call front args after before name gap calls rest hopening hnamed hclosing _ ih =>
      have hafter := ih fun left right heq =>
        hclosed (front ++ ⟨'(', false⟩ :: (args ++ ⟨')', false⟩ :: left)) right (by simp [heq])
      have hcall := Decomposes.call hopening hnamed hclosing hafter
      simpa using hcall

theorem EndsWithName.append_opened {front args : List Glyph} {before name gap : Text}
    (h : EndsWithName (ofGlyphs front) before name gap) :
    before ++ opened ⟨name, gap, ofGlyphs args⟩ = ofGlyphs (front ++ ⟨'(', false⟩ :: args) := by
  rw [ofGlyphs_append, h.eq, opened]
  simp

theorem endsWithName_nil : EndsWithName [] [] [] [] :=
  splitName_eq_iff.1 rfl

/-- A group around text without calls. -/
theorem Decomposes.group_nil {glyphs : List Glyph} {rest : Text} (h : Decomposes glyphs [] rest)
    (hbalanced : Balanced glyphs) :
    Decomposes (⟨'(', false⟩ :: (glyphs ++ [⟨')', false⟩])) [([], ⟨[], [], rest⟩)] [] := by
  cases h with
  | rest hnone =>
      have hopen : ⟨'(', false⟩ ∉ glyphs := by
        intro hmem
        obtain ⟨front, back, rfl⟩ := List.append_of_mem hmem
        exact hnone front back rfl hbalanced.close_of_open
      have hclose := hbalanced.not_close_of_not_open hopen
      have hrest : Decomposes [] [] [] := .rest (by simp)
      have hgroup := Decomposes.call (List.not_mem_nil) endsWithName_nil hclose hrest
      exact hgroup

/-- A group around calls takes in the first of them. -/
theorem Decomposes.group_cons {glyphs : List Glyph} {before rest : Text} {call : Call}
    {calls : List (Text × Call)} (h : Decomposes glyphs ((before, call) :: calls) rest)
    (hbalanced : Balanced glyphs) :
    Decomposes (⟨'(', false⟩ :: (glyphs ++ [⟨')', false⟩]))
      (([], ⟨[], [], before ++ call.opened⟩) :: calls) (rest ++ ")".toList) := by
  cases h with
  | @call front args after _ name gap _ _ hopening hnamed hclosing hmore =>
      have hafter := hmore.append_close fun left right heq => by
        have hopened : Balanced ((front ++ ⟨'(', false⟩ :: (args ++ ⟨')', false⟩ :: left)) ++
            ⟨'(', false⟩ :: right) := by
          simpa [heq] using hbalanced
        exact hopened.close_of_open
      have hfront : ⟨')', false⟩ ∉ front := by
        intro hmem
        obtain ⟨left, right, rfl⟩ := List.append_of_mem hmem
        have hclosed : Balanced (left ++ ⟨')', false⟩ ::
            (right ++ ⟨'(', false⟩ :: (args ++ ⟨')', false⟩ :: after))) := by
          simpa using hbalanced
        exact hopening (List.mem_append_left _ hclosed.open_of_close)
      have hinside : ⟨')', false⟩ ∉ front ++ ⟨'(', false⟩ :: args := by
        simp [hfront, hclosing]
      have hgroup := Decomposes.call (List.not_mem_nil) endsWithName_nil hinside hafter
      rw [hnamed.append_opened]
      simpa using hgroup

/-- What a text has up to the end of the arguments of its first call. -/
structure LiesFirst (text before : Text) (call : Call) : Prop where
  isName : ∀ c ∈ call.name, isNameChar c = true
  isGap : AllBlank call.gap
  closedBefore : Closed before
  closedArgs : Closed call.args
  args : marks call.args ⊆ marks text
  opened : marks (before ++ call.opened) ⊆ marks text

theorem Decomposes.liesFirst {text before rest : Text} {call : Call} {calls : List (Text × Call)}
    (h : Decomposes (marks text) ((before, call) :: calls) rest) : LiesFirst text before call := by
  generalize hglyphs : marks text = glyphs at h
  cases h with
  | @call front args after _ name gap _ _ _ hnamed _ _ =>
      obtain ⟨hfront, -, -, hinside⟩ := closed_of_marks_eq hglyphs
      obtain ⟨hargs, -, hmarks, -⟩ := closed_of_marks_eq hinside.symm
      have hwhole : marks text = (front ++ ⟨'(', false⟩ :: args) ++ ⟨')', false⟩ :: after := by
        rw [hglyphs]
        simp
      obtain ⟨-, -, hopened, -⟩ := closed_of_marks_eq hwhole
      have hclosed : Closed before := by
        rw [hnamed.eq, List.append_assoc] at hfront
        apply hfront.of_append_right
        intro c hc
        rcases List.mem_append.1 hc with hc | hc
        · exact isQuote_of_isAsciiWord (hnamed.isName c hc)
        · exact isQuote_of_isBlank (hnamed.isGap c hc)
      refine ⟨hnamed.isName, hnamed.isGap, hclosed, hargs, ?_, ?_⟩
      · rw [show marks (ofGlyphs args) = args from hmarks.symm, hglyphs]
        exact fun glyph hglyph => by simp [hglyph]
      · rw [hnamed.append_opened, ← hopened, hwhole]
        exact List.subset_append_left _ _

/-- The code of a group around calls, without the parenthesis that opens it: the first call
is copied. -/
def renderInGroup : List (Text × Call) → Text → Text
  | [], rest => rest ++ ")".toList
  | (before, call) :: calls, rest =>
      trim (before ++ call.opened) ++ ")".toList ++ render calls rest ++ ")".toList

theorem render_append (calls : List (Text × Call)) (rest more : Text) :
    render calls (rest ++ more) = render calls rest ++ more := by
  simp [render]

end Call

namespace Expression

variable {e : Text}

theorem marks_group (h : Closed e) :
    marks ("(".toList ++ e ++ ")".toList) = ⟨'(', false⟩ :: (marks e ++ [⟨')', false⟩]) := by
  have hopen : Closed "(".toList := by decide
  rw [(hopen.append h).marks_append, hopen.marks_append]
  rfl

theorem trim_group (e : Text) :
    trim ("(".toList ++ e ++ ")".toList) = "(".toList ++ e ++ ")".toList := by
  have hstart : trim ("(".toList ++ e ++ ")".toList) = trimEnd ("(".toList ++ e ++ ")".toList) :=
    trim_eq_trimEnd (by simp; decide)
  rw [hstart]
  exact trimEnd_append_cons (by decide) _ []

theorem not_hasPipe_group (hclosed : Closed e) (hpipe : ¬ HasPipe e) :
    ¬ HasPipe ("(".toList ++ e ++ ")".toList) := by
  rintro ⟨front, back, heq, hlast, hhead⟩
  rw [marks_group hclosed] at heq
  cases front with
  | nil => cases heq
  | cons glyph front =>
      obtain ⟨-, hrest⟩ := List.cons.inj heq
      rcases List.eq_nil_or_concat back with rfl | ⟨back, other, rfl⟩
      · have hends := congrArg List.getLast? hrest
        simp at hends
      · -- A pipe between the parentheses has its neighbours in `e`, which may be fewer.
        have hinside : marks e ++ [⟨')', false⟩] = (front ++ ⟨'|', false⟩ :: back) ++ [other] := by
          rw [hrest]
          simp
        refine hpipe ⟨front, back, (List.append_inj' hinside rfl).1, ?_, ?_⟩
        · intro last hmem
          apply hlast
          rw [List.getLast?_cons, show front.getLast? = some last from hmem]
          rfl
        · intro first hmem
          apply hhead
          rw [List.concat_eq_append, List.head?_append, show back.head? = some first from hmem]
          rfl

theorem compile_group_eq (htrim : trim e = e) (hclosed : Closed e) (hbalanced : Balanced (marks e))
    (hcomma : ⟨',', false⟩ ∉ marks e) (hpipe : ¬ HasPipe e) {calls : List (Text × Call)}
    {rest : Text} (h : Call.Decomposes (marks e) calls rest) :
    compile ("(".toList ++ e ++ ")".toList) = "(".toList ++ Call.renderInGroup calls rest := by
  have hcompile : ∀ {inGroup restInGroup},
      Call.Decomposes (⟨'(', false⟩ :: (marks e ++ [⟨')', false⟩])) inGroup restInGroup →
        compile ("(".toList ++ e ++ ")".toList) = Call.render inGroup restInGroup := by
    intro inGroup restInGroup hgroup
    apply compile_eq_render (not_hasPipe_group hclosed hpipe)
    rwa [trim_group, marks_group hclosed]
  rcases calls with _ | ⟨⟨before, call⟩, calls⟩
  · have hrest : rest = e := by
      have hsource := Call.source_splitCalls (marks e)
      rw [h.splitCalls_eq, ofGlyphs_marks] at hsource
      exact hsource
    subst hrest
    rw [hcompile (h.group_nil hbalanced), Call.render_cons, Call.code_of_no_name rfl hcomma, htrim]
    simp [Call.render, Call.renderInGroup]
  · have hfirst := h.liesFirst
    have hinside : ⟨',', false⟩ ∉ marks (before ++ call.opened) :=
      fun hmem => hcomma (hfirst.opened hmem)
    rw [hcompile (h.group_cons hbalanced), Call.render_cons, Call.code_of_no_name rfl hinside,
      Call.render_append, Call.renderInGroup]
    simp

/-- A group keeps what it is put around, blanks outside literals aside, unless the first call
in it has a name: that call is copied, and every other one is compiled. -/
theorem compile_group_iff (htrim : trim e = e) (hclosed : Closed e)
    (hbalanced : Balanced (marks e)) (hcomma : ⟨',', false⟩ ∉ marks e) (hpipe : ¬ HasPipe e)
    {calls : List (Text × Call)} {rest : Text} (h : Call.Decomposes (marks e) calls rest) :
    compile ("(".toList ++ e ++ ")".toList) = "(".toList ++ Call.renderInGroup calls rest ∧
      (squeeze (compile ("(".toList ++ e ++ ")".toList)) =
          squeeze ("(".toList ++ compile e ++ ")".toList) ↔
        ∀ found ∈ calls.head?, found.2.name = []) := by
  have hgroup := compile_group_eq htrim hclosed hbalanced hcomma hpipe h
  have hcompile : compile e = Call.render calls rest := compile_eq_render hpipe (by rwa [htrim])
  refine ⟨hgroup, ?_⟩
  rw [hgroup, hcompile]
  rcases calls with _ | ⟨⟨before, call⟩, calls⟩
  · exact iff_of_true (by simp [Call.render, Call.renderInGroup]) (by simp)
  · have hfirst := h.liesFirst
    have hopen : Plain "(".toList := by decide
    have hcommaArgs : ⟨',', false⟩ ∉ marks call.args := fun hmem => hcomma (hfirst.args hmem)
    have hcall := Call.squeeze_code_append_iff hfirst.isName hfirst.isGap hfirst.closedArgs
      hcommaArgs (Call.render calls rest ++ ")".toList)
    have hopened : Closed call.opened := Call.closed_opened
      (Call.plain_of_isNameChar hfirst.isName) hfirst.isGap hfirst.closedArgs
    have hinside := hfirst.closedBefore.append hopened
    have hleft : squeeze ("(".toList ++ Call.renderInGroup ((before, call) :: calls) rest) =
        "(".toList ++ squeeze before ++
          squeeze (call.source ++ (Call.render calls rest ++ ")".toList)) := by
      rw [Call.renderInGroup, Call.source_eq]
      simp only [List.append_assoc]
      rw [hopen.squeeze_append, hinside.trim.squeeze_append, hinside.squeeze_trim,
        hfirst.closedBefore.squeeze_append, hopened.squeeze_append, List.append_assoc]
    have hright : squeeze ("(".toList ++ Call.render ((before, call) :: calls) rest ++ ")".toList) =
        "(".toList ++ squeeze before ++
          squeeze (call.code ++ (Call.render calls rest ++ ")".toList)) := by
      rw [Call.render_cons]
      simp only [List.append_assoc]
      rw [hopen.squeeze_append, hfirst.closedBefore.squeeze_append]
    -- Both sides are now the first call, as it stands and compiled, in front of the same text.
    rw [hleft, hright, List.append_cancel_left_eq, eq_comm, hcall]
    simp

theorem compile_group_of_copied_call :
    let e := "a('(') > count ( rows ) && escape(t)".toList
    let calls : List (Text × Call) :=
      [([], ⟨"a".toList, [], "'('".toList⟩),
        (" > ".toList, ⟨"count".toList, " ".toList, " rows ".toList⟩),
        (" && ".toList, ⟨"escape".toList, [], "t".toList⟩)]
    trim e = e ∧ Closed e ∧ Balanced (marks e) ∧ ⟨',', false⟩ ∉ marks e ∧ ¬ HasPipe e ∧
      Call.Decomposes (marks e) calls [] ∧
      compile ("(".toList ++ e ++ ")".toList) = "(".toList ++ Call.renderInGroup calls [] := by
  intro e calls
  have htrim : trim e = e := by decide +kernel
  have hclosed : Closed e := by decide +kernel
  have hbalanced : Balanced (marks e) := by decide +kernel
  have hcomma : ⟨',', false⟩ ∉ marks e := by decide +kernel
  have hpipe : ¬ HasPipe e := by decide +kernel
  have hparts : Call.Decomposes (marks e) calls [] := by
    have hsplit : Call.splitCalls (marks e) = (calls, []) := by decide +kernel
    have hunique := Call.decomposes_splitCalls (marks e)
    rwa [hsplit] at hunique
  exact ⟨htrim, hclosed, hbalanced, hcomma, hpipe, hparts,
    (compile_group_iff htrim hclosed hbalanced hcomma hpipe hparts).1⟩

/-- A call that stands first in a group is lost. -/
theorem squeeze_group_count_ne :
    let e := "count(x)".toList
    trim e = e ∧ Closed e ∧ Balanced (marks e) ∧ ⟨',', false⟩ ∉ marks e ∧ ¬ HasPipe e ∧
      squeeze (compile ("(".toList ++ e ++ ")".toList)) = "(count(x))".toList ∧
      squeeze ("(".toList ++ compile e ++ ")".toList) = "(x.length)".toList := by
  decide +kernel

end Expression

end TagTemplate
