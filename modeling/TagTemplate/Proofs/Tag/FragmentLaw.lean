import TagTemplate.Proofs.Tag.CodeLaw
import TagTemplate.Tag.Reading

/-!
# Laws of fragments

The fragment of a kind closes a block, opens one, does both or neither, whatever its
expression.  So a law of target code leads from one side of a fragment to the other
(`CodeLaw.fragment`), and a property of characters that all fixed words have passes from
tag bodies to fragments (`Reading.allowed_of_mem_fragment`).
-/

namespace TagTemplate

open Text

namespace Kind

/-- How many blocks the fragment of a kind closes before it opens one. -/
def closes : Kind → Nat
  | elseIfTag | elseTag | endTag => 1
  | _ => 0

/-- How many blocks the fragment of a kind opens. -/
def opens : Kind → Nat
  | ifTag | elseIfTag | elseTag | foreachTag | sectionTag => 1
  | _ => 0

/-- The expression whose code stands in the fragment, for the kinds that have one. -/
def compiled? (kind : Kind) (expression : Text) : Option Text :=
  match kind with
  | ifTag | elseIfTag => some (Operator.rewrite expression)
  | calcTag | printTag => some expression
  | _ => none

end Kind

namespace CodeLaw

variable {piece : Text → Prop} {loose sealed : Nat → Nat → Text → Prop} {tolerant : Prop}

theorem print (law : CodeLaw piece loose sealed tolerant) {expression : Text}
    (h : Level loose (Expression.compile expression)) :
    Level loose (Fragment.print expression) := by
  intro depth
  unfold Fragment.print
  dsimp only
  split
  · exact law.ofSealed (law.nil depth)
  · split
    · exact law.ofSealed (law.word (law.append (law.start _ (by decide) depth) (h depth)) _
        (by decide))
    · exact law.ofSealed (law.word (law.append (law.start _ (by decide) depth) (h depth)) _
        (by decide))

theorem assign (law : CodeLaw piece loose sealed tolerant) {expression : Text}
    (h : piece expression) : Level loose (Fragment.assign expression) := by
  intro depth
  have htarget := law.taken h (Attributes.takenFrom_ident expression "var".toList) depth
  have hvalue := law.taken h (Attributes.takenFrom_value expression "value".toList) depth
  have hleft := law.word (law.append (law.start "var ".toList (by decide) depth) htarget)
    " = ".toList (by decide)
  exact law.ofSealed (law.word (law.append hleft hvalue) _ (by decide))

theorem counter (law : CodeLaw piece loose sealed tolerant) {expression : Text}
    (h : piece expression) (depth : Nat) :
    loose depth (depth + 1) (Fragment.counter expression) := by
  have hname := law.taken h (Attributes.takenFrom_ident expression "name".toList) depth
  have hcollection := law.taken h (Attributes.takenFrom_ident expression "loop".toList) depth
  have hstart := law.word (law.append (law.start "for (var ".toList (by decide) depth) hname)
    " = 0; ".toList (by decide)
  have htest := law.word (law.append hstart hname) " < ".toList (by decide)
  have hlength := law.word (law.append htest hcollection) ".length; ".toList (by decide)
  exact law.opening _ 0 1 (law.append hlength hname) (by decide)

/-! ## Loops -/

theorem loopIndex (law : CodeLaw piece loose sealed tolerant) {loop : Loop}
    (h : ∀ part ∈ loop.parts, Level loose part) : Level sealed loop.index :=
  fun depth => law.word (h loop.item (List.mem_cons_of_mem _ List.mem_cons_self) depth) _
    (by decide)

theorem loopHead (law : CodeLaw piece loose sealed tolerant) {loop : Loop}
    (h : ∀ part ∈ loop.parts, Level loose part) (depth : Nat) :
    sealed depth (depth + 1) loop.head := by
  have hcollection := h loop.collection List.mem_cons_self depth
  have hitem := h loop.item (List.mem_cons_of_mem _ List.mem_cons_self) depth
  have hindex := law.ofSealed (law.loopIndex h depth)
  have hkey : ∀ word : Text, isFlat word = true →
      loose depth depth (loop.key.elim [] fun key => ", ".toList ++ key ++ word) := by
    intro word hword
    cases hkey : loop.key with
    | none => exact law.ofSealed (law.nil depth)
    | some key =>
        have hmem : key ∈ loop.parts := by simp [Loop.parts, hkey]
        exact law.ofSealed (law.word (law.append (law.start _ (by decide) depth)
          (h key hmem depth)) word hword)
  have hstart := law.word (law.append (law.start "for (let ".toList (by decide) depth) hindex)
    " = 0".toList (by decide)
  have hnames := law.word (law.append hstart (hkey " = 0".toList (by decide))) ", ".toList
    (by decide)
  have hdeclared := law.word (law.append hnames hitem) "; ".toList (by decide)
  have htest := law.word (law.append hdeclared hindex) " < ".toList (by decide)
  have hlength := law.word (law.append htest hcollection) ".length; ".toList (by decide)
  have hstep := law.word (law.append hlength hindex) "++".toList (by decide)
  exact law.block _ 0 1 (law.append hstep (hkey "++".toList (by decide))) (by decide) (by decide)

theorem loopBind (law : CodeLaw piece loose sealed tolerant) {loop : Loop}
    (h : ∀ part ∈ loop.parts, Level loose part) : Level sealed loop.bindItem := by
  intro depth
  have hcollection := h loop.collection List.mem_cons_self depth
  have hitem := h loop.item (List.mem_cons_of_mem _ List.mem_cons_self) depth
  have hleft := law.word (law.append (law.word hitem " = ".toList (by decide)) hcollection)
    "[".toList (by decide)
  exact law.word (law.append hleft (law.ofSealed (law.loopIndex h depth))) _ (by decide)

theorem loopBox (law : CodeLaw piece loose sealed tolerant) {loop : Loop}
    (h : Level loose loop.item) : Level sealed loop.boxItem := by
  intro depth
  have htype := law.word (law.append (law.start "if (typeOf(".toList (by decide) depth) (h depth))
    ") != \"object\" || ".toList (by decide)
  have hopen := law.block " === null) \x7b ".toList 0 1 (law.append htype (h depth)) (by decide)
    (by decide)
  have hbox := law.block (" = (function (value) \x7b return \x7b " ++
      "toString: function () \x7b return String(value); \x7d, " ++
      "valueOf: function () \x7b return value; \x7d \x7d; \x7d)(").toList 1 1
    (law.append hopen (h (depth + 1))) (by decide +kernel) (by decide +kernel)
  exact law.block _ 1 0 (law.append hbox (h (depth + 1))) (by decide) (by decide)

theorem loopMetadata (law : CodeLaw piece loose sealed tolerant) {metaMark : Text} {loop : Loop}
    (hmark : piece metaMark) (h : ∀ part ∈ loop.parts, Level loose part) :
    Level sealed (loop.metadataCode metaMark) := by
  intro depth
  have hcollection := h loop.collection List.mem_cons_self depth
  have hitem := h loop.item (List.mem_cons_of_mem _ List.mem_cons_self) depth
  have hproperty : ∀ name : Text, isFlat name = true →
      sealed depth depth (loop.metadata metaMark name) := by
    intro name hname
    exact law.word (law.append (law.word hitem _ (by decide)) (law.ofPiece hmark depth)) name hname
  have hindex := law.word (law.ofSealed (hproperty "index".toList (by decide))) " = ".toList
    (by decide)
  have hcount := law.word (law.append hindex (law.ofSealed (law.loopIndex h depth))) "; ".toList
    (by decide)
  have hfirst := law.word (law.append hcount (law.ofSealed (hproperty "first".toList (by decide))))
    " = ".toList (by decide)
  have hmember := law.word (law.append hfirst hcollection) "[0]; ".toList (by decide)
  have hlast := law.word (law.append hmember (law.ofSealed (hproperty "last".toList (by decide))))
    " = ".toList (by decide)
  have hselect := law.word (law.append hlast hcollection) "[".toList (by decide)
  exact law.word (law.append hselect hcollection) _ (by decide)

theorem loopCode (law : CodeLaw piece loose sealed tolerant) {metaMark : Text} {loop : Loop}
    (hmark : piece metaMark) (h : ∀ part ∈ loop.parts, Level loose part) (depth : Nat) :
    sealed depth (depth + 1) (loop.code metaMark) := by
  have hitem := h loop.item (List.mem_cons_of_mem _ List.mem_cons_self)
  have hbound := law.appendSealed (law.loopHead h depth) (law.loopBind h (depth + 1))
  have hboxed := law.appendSealed hbound (law.loopBox hitem (depth + 1))
  exact law.appendSealed hboxed (law.loopMetadata hmark h (depth + 1))

/-! ## All kinds -/

/-- The fragment of a kind leads from the blocks that it closes to those that it opens. -/
theorem fragment (law : CodeLaw piece loose sealed tolerant) (kind : Kind)
    {metaMark expression : Text} (hmark : piece metaMark)
    (h : kind ≠ .endTag → piece expression)
    (hjoin : ∀ compiled ∈ kind.compiled? expression, Expression.JoinsCall compiled → tolerant)
    (depth : Nat) :
    loose (depth + kind.closes) (depth + kind.opens) (kind.fragment metaMark expression) := by
  have hstart : ∀ depth, loose depth depth [] := fun depth => law.ofSealed (law.nil depth)
  cases kind with
  | ifTag =>
      have hcode := law.expression (law.symbols (h (by decide))) (hjoin _ rfl) depth
      exact law.opening _ 0 1 (law.append (law.start _ (by decide) depth) hcode) (by decide)
  | elseIfTag =>
      have hcode := law.expression (law.symbols (h (by decide))) (hjoin _ rfl) depth
      have hclose := law.block "\x7d else if (".toList 1 0 (hstart (depth + 1)) (by decide)
        (by decide)
      exact law.opening _ 0 1 (law.append hclose hcode) (by decide)
  | elseTag => exact law.opening "\x7d else \x7b".toList 1 1 (hstart (depth + 1)) (by decide)
  | endTag => exact law.opening "\x7d".toList 1 0 (hstart (depth + 1)) (by decide)
  | foreachTag =>
      refine law.ofSealed (law.loopCode hmark ?_ depth)
      exact fun part hpart => law.taken (h (by decide)) (Loop.takenFrom_of_mem_parts hpart)
  | sectionTag => exact law.counter (h (by decide)) depth
  | assignTag => exact law.assign (h (by decide)) depth
  | calcTag =>
      have hcode := law.expression (h (by decide)) (hjoin _ rfl) depth
      exact law.ofSealed (law.word hcode _ (by decide))
  | printTag => exact law.print (law.expression (h (by decide)) (hjoin _ rfl)) depth
  | breakTag => exact law.ofSealed (law.start "break;".toList (by decide) depth)

/-! ## Laws of characters -/

/-- A law of one strength. -/
theorem uniform {holds : Nat → Nat → Text → Prop}
    (part : ∀ {text part}, piece text → part <:+: text → piece part)
    (symbols : ∀ {text}, piece text → piece (Operator.rewrite text))
    (dollars : ∀ {text}, piece text → piece (Sigil.dropDollars text))
    (ofPiece : ∀ {text}, piece text → Level holds text)
    (append : ∀ {start middle stop front back}, holds start middle front →
      holds middle stop back → holds start stop (front ++ back))
    (fixed : ∀ {start stop word}, (∀ c ∈ word, isFixedChar c = true) →
      depth? start word = some stop → holds start stop word)
    (trim : ∀ {text}, Level holds text → Level holds (Text.trim text))
    (path : ∀ {text part}, Level holds text →
      (∀ c ∈ text, Filter.isSegmentChar c = true ∨ c = '.') → (∀ c ∈ part, c ∈ text) →
      Level holds part) : CodeLaw piece holds holds True where
  part := part
  symbols := symbols
  dollars := dollars
  nil := fun depth => fixed (by simp) rfl
  ofPiece := ofPiece
  ofSealed := id
  append := append
  appendSealed := append
  fixed := fun h hchars hdepth => append h (fixed hchars hdepth)
  sealing := fun h hchars hdepth _ _ => append h (fixed hchars hdepth)
  trim := trim
  path := path
  call := fun hfront hcode _ _ => append hfront hcode

theorem isFixedChar_of_mem_symbol {operator : Operator} {c : Char} (h : c ∈ operator.symbol) :
    isFixedChar c = true := by
  have hsymbol : operator.symbol.all isFixedChar = true := by
    cases operator <;> decide
  exact List.all_eq_true.1 hsymbol c h

/-- The law of the texts of allowed characters. -/
theorem ofChars {allowed : Char → Prop} (hfixed : ∀ c, isFixedChar c = true → allowed c) :
    CodeLaw (fun text => ∀ c ∈ text, allowed c) (fun _ _ text => ∀ c ∈ text, allowed c)
      (fun _ _ text => ∀ c ∈ text, allowed c) True := by
  apply uniform
  case part => exact fun h hpart c hc => h c (hpart.subset hc)
  case symbols =>
    intro text h
    apply Operator.mem_rewrite h
    exact fun entry _ c hc => hfixed c (isFixedChar_of_mem_symbol hc)
  case dollars => exact fun h c hc => h c (List.mem_of_mem_filter hc)
  case ofPiece => exact fun h _ => h
  case append =>
    intro start middle stop front back hfront hback c hc
    rcases List.mem_append.1 hc with hc | hc
    · exact hfront c hc
    · exact hback c hc
  case fixed => exact fun hchars _ c hc => hfixed c (hchars c hc)
  case trim => exact fun h depth c hc => h depth c ((trim_isInfix _).subset hc)
  case path => exact fun h _ hpart depth c hc => h depth c (hpart c hc)

end CodeLaw

/-- A fragment has the characters of fixed words, of the body, and of the metadata mark. -/
theorem Reading.allowed_of_mem_fragment {allowed : Char → Prop}
    (hfixed : ∀ c, isFixedChar c = true → allowed c) {metaMark body : Text}
    (hmark : ∀ c ∈ metaMark, allowed c) (hbody : ∀ c ∈ body, allowed c) :
    ∀ c ∈ (Reading.ofBody metaMark body).fragment metaMark, allowed c := by
  refine (CodeLaw.ofChars hfixed).fragment _ hmark ?_ (fun _ _ _ => trivial) 0
  intro hkind c hc
  rcases Reading.mem_expression hkind hc with hc | rfl | rfl | hc
  · exact hbody c hc
  · exact hfixed ' ' (by decide)
  · exact hfixed '.' (by decide)
  · exact hmark c hc

end TagTemplate
