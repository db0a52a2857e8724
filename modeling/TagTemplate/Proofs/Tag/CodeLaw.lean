import TagTemplate.Proofs.Expression.Joined
import TagTemplate.Proofs.Expression.Operators
import TagTemplate.Proofs.Tag.Parts
import TagTemplate.Proofs.Text.Depth

/-!
# Laws of target code

Target code is put together from pieces of the expression and from fixed words, which
open and close blocks.  A law says of a text that it leads from one depth of blocks to
another.  It comes in two strengths: behind a `loose` text stands a fixed word, behind a
`sealed` one may stand a piece as well.  A law that is kept by putting texts together in
this way holds of the code of expressions (`CodeLaw.expression`).
-/

namespace TagTemplate

open Text

/-- The characters of the fixed words of target code, braces apart. -/
def isCodeChar (c : Char) : Bool :=
  0x20 ≤ c.toNat && c.toNat < 0x7f && c != '$' && c != '@' && c != '%' && c != '\x7b' && c != '\x7d'

/-- The characters of the fixed words of target code. -/
def isFixedChar (c : Char) : Bool :=
  isCodeChar c || c == '\x7b' || c == '\x7d'

/-- The text leads from every depth to the same depth. -/
abbrev Level (holds : Nat → Nat → Text → Prop) (text : Text) : Prop :=
  ∀ depth, holds depth depth text

/-- A property of texts, in two strengths, that target code inherits from the pieces of
expressions.  Only a `tolerant` law is kept where a call is joined to the text before it. -/
structure CodeLaw (piece : Text → Prop) (loose sealed : Nat → Nat → Text → Prop)
    (tolerant : Prop) : Prop where
  part : ∀ {text part}, piece text → part <:+: text → piece part
  symbols : ∀ {text}, piece text → piece (Operator.rewrite text)
  dollars : ∀ {text}, piece text → piece (Sigil.dropDollars text)
  nil : ∀ depth, sealed depth depth []
  ofPiece : ∀ {text}, piece text → Level loose text
  ofSealed : ∀ {start stop text}, sealed start stop text → loose start stop text
  append : ∀ {start middle stop front back}, sealed start middle front →
    loose middle stop back → loose start stop (front ++ back)
  appendSealed : ∀ {start middle stop front back}, sealed start middle front →
    sealed middle stop back → sealed start stop (front ++ back)
  fixed : ∀ {start middle stop text word}, loose start middle text →
    (∀ c ∈ word, isFixedChar c = true) → depth? middle word = some stop →
    loose start stop (text ++ word)
  sealing : ∀ {start middle stop text word}, loose start middle text →
    (∀ c ∈ word, isFixedChar c = true) → depth? middle word = some stop → word ≠ [] →
    word.getLast? ≠ some '\x7b' → sealed start stop (text ++ word)
  trim : ∀ {text}, Level loose text → Level loose (Text.trim text)
  /-- The texts that are made of the characters of a dotted path. -/
  path : ∀ {text part}, Level loose text →
    (∀ c ∈ text, Filter.isSegmentChar c = true ∨ c = '.') → (∀ c ∈ part, c ∈ text) →
    Level loose part
  call : ∀ {start middle stop front code}, loose start middle front →
    sealed middle stop code → code ≠ [] →
    (front.getLast? = some '\x7b' → code.head? = some '%' → tolerant) →
    sealed start stop (front ++ code)

namespace CodeLaw

variable {piece : Text → Prop} {loose sealed : Nat → Nat → Text → Prop} {tolerant : Prop}

/-! ## Fixed words -/

/-- A fixed word without braces. -/
def isFlat (word : Text) : Bool :=
  !word.isEmpty && word.all isCodeChar

/-- A fixed word that leads from one depth to another. -/
def isBlock (start stop : Nat) (word : Text) : Bool :=
  word.all isFixedChar && depth? start word == some stop

theorem braceless_of_isFlat {word : Text} (h : isFlat word = true) : Braceless word := by
  rw [isFlat, Bool.and_eq_true, List.all_eq_true] at h
  constructor
  · intro hmem
    exact absurd (h.2 _ hmem) (by decide)
  · intro hmem
    exact absurd (h.2 _ hmem) (by decide)

/-- Behind a fixed word without braces anything may stand. -/
theorem word (law : CodeLaw piece loose sealed tolerant) {start depth : Nat} {text : Text}
    (h : loose start depth text) (word : Text) (hword : isFlat word = true) :
    sealed start depth (text ++ word) := by
  have hplain := braceless_of_isFlat hword
  rw [isFlat, Bool.and_eq_true, List.all_eq_true, Bool.not_eq_true',
    List.isEmpty_eq_false_iff] at hword
  refine law.sealing h ?_ (hplain.depth?_eq depth) hword.1 ?_
  · intro c hc
    rw [isFixedChar, hword.2 c hc]
    rfl
  · intro hlast
    exact hplain.1 (List.mem_of_getLast? hlast)

theorem start (law : CodeLaw piece loose sealed tolerant) (word : Text)
    (hword : isFlat word = true) : Level sealed word :=
  fun depth => law.word (law.ofSealed (law.nil depth)) word hword

/-- A word with braces is looked at from the least depth at which it makes sense. -/
theorem block (law : CodeLaw piece loose sealed tolerant) {start depth : Nat} {text : Text}
    (word : Text) (outer inner : Nat) (h : loose start (depth + outer) text)
    (hword : isBlock outer inner word = true)
    (hend : (word.getLast?.any fun c => c != '\x7b') = true) :
    sealed start (depth + inner) (text ++ word) := by
  rw [isBlock, Bool.and_eq_true, List.all_eq_true, beq_iff_eq] at hword
  refine law.sealing h hword.1 (depth?_add hword.2 depth) ?_ ?_
  · rintro rfl
    cases hend
  · intro hlast
    rw [hlast] at hend
    exact absurd hend (by decide)

/-- Behind a word that ends with an opening brace only a fixed word may stand. -/
theorem opening (law : CodeLaw piece loose sealed tolerant) {start depth : Nat} {text : Text}
    (word : Text) (outer inner : Nat) (h : loose start (depth + outer) text)
    (hword : isBlock outer inner word = true) : loose start (depth + inner) (text ++ word) := by
  rw [isBlock, Bool.and_eq_true, List.all_eq_true, beq_iff_eq] at hword
  exact law.fixed h hword.1 (depth?_add hword.2 depth)

theorem taken (law : CodeLaw piece loose sealed tolerant) {expression part : Text}
    (h : piece expression) (hpart : Attributes.TakenFrom expression part) : Level loose part := by
  rcases hpart with rfl | hpart | hpart
  · exact fun depth => law.ofSealed (law.start "undefined".toList (by decide) depth)
  · exact law.ofPiece (law.part h hpart)
  · exact law.ofPiece (law.part (law.dollars h) hpart)

/-! ## Filters -/

theorem walkHelper (law : CodeLaw piece loose sealed tolerant) :
    Level sealed Filter.walkHelper := by
  intro depth
  unfold Filter.walkHelper
  simp only [String.toList_append]
  have hfunction := law.block "(function (node, path) \x7b ".toList 0 1
    (law.ofSealed (law.nil depth)) (by decide) (by decide)
  have hloop := law.block "for (var i = 1; i < path.length; i++) \x7b ".toList 1 2
    (law.ofSealed hfunction) (by decide +kernel) (by decide +kernel)
  have hguard := law.word (law.ofSealed hloop)
    "if (node === null || node === undefined || typeOf(node) != \"object\") ".toList
    (by decide +kernel)
  have hunset := law.block "\x7b return false; \x7d ".toList 2 2 (law.ofSealed hguard) (by decide)
    (by decide)
  have hlast := law.word (law.ofSealed hunset) "if (i == path.length - 1) ".toList (by decide)
  have hfound := law.block
    "\x7b return Object.prototype.hasOwnProperty.call(node, path[i]); \x7d ".toList 2 2
    (law.ofSealed hlast) (by decide +kernel) (by decide +kernel)
  have hstep := law.block "node = node[path[i]]; \x7d ".toList 2 1 (law.ofSealed hfound) (by decide)
    (by decide)
  exact law.block "return node !== null && node !== undefined; \x7d)".toList 1 0
    (law.ofSealed hstep) (by decide +kernel) (by decide +kernel)

theorem emptyHelper (law : CodeLaw piece loose sealed tolerant) :
    Level sealed Filter.emptyHelper := by
  intro depth
  unfold Filter.emptyHelper
  simp only [String.toList_append]
  have hfunction := law.block
    "(function (v) \x7b return v === 0 || v === \"0\" || v === \"\" || ".toList 0 1
    (law.ofSealed (law.nil depth)) (by decide +kernel) (by decide +kernel)
  exact law.block "v === null || v === undefined; \x7d)".toList 1 0 (law.ofSealed hfunction)
    (by decide +kernel) (by decide +kernel)

theorem intercalate (law : CodeLaw piece loose sealed tolerant) {separator : Text}
    (hseparator : Level sealed separator) {texts : List Text}
    (h : ∀ text ∈ texts, Level sealed text) :
    Level sealed (List.intercalate separator texts) := by
  intro depth
  induction texts with
  | nil => exact law.nil depth
  | cons text texts ih =>
      have hhead := h text List.mem_cons_self depth
      have htail := ih fun other hother => h other (List.mem_cons_of_mem text hother)
      cases texts with
      | nil =>
          rw [List.intercalate_singleton]
          exact hhead
      | cons next others =>
          rw [List.intercalate_cons_cons]
          exact law.appendSealed (law.appendSealed hhead (hseparator depth)) htail

theorem issetCode (law : CodeLaw piece loose sealed tolerant) {operand : Text}
    (h : Level loose operand) : Level sealed (Filter.issetCode operand) := by
  intro depth
  have htrim := law.trim h
  unfold Filter.issetCode
  dsimp only
  split
  · have hfirst := law.word (law.append (law.start "(".toList (by decide) depth) (htrim depth))
      " !== undefined && ".toList (by decide)
    exact law.word (law.append hfirst (htrim depth)) _ (by decide)
  · rename_i root segments hpath
    obtain ⟨hchars, hparts⟩ := Filter.dottedPath?_chars hpath
    have hsegment : ∀ segment ∈ root :: segments, Level loose segment :=
      fun segment hmem => law.path htrim hchars (hparts segment hmem)
    have hquoted : ∀ text ∈ (root :: segments).map Filter.quoteSegment, Level sealed text := by
      intro text htext depth
      obtain ⟨segment, hmem, rfl⟩ := List.mem_map.1 htext
      exact law.word (law.append (law.start "\"".toList (by decide) depth)
        (hsegment segment hmem depth)) _ (by decide)
    have hpaths := law.intercalate (law.start ", ".toList (by decide)) hquoted depth
    have hcall := law.word (law.ofSealed (law.walkHelper depth)) "(".toList (by decide)
    have hroot := law.word (law.append hcall (hsegment root List.mem_cons_self depth))
      ", [".toList (by decide)
    exact law.word (law.append hroot (law.ofSealed hpaths)) _ (by decide)

/-- The code of a filter ends with a fixed word. -/
theorem filter (law : CodeLaw piece loose sealed tolerant) (filter : Filter) {operand : Text}
    {args : List Text} (h : Level loose operand) (hargs : ∀ arg ∈ args, Level loose arg) :
    Level sealed (filter.code operand args) := by
  intro depth
  have hguard : sealed depth depth
      (operand ++ " && ".toList ++ operand ++ ".stringify()".toList) :=
    law.word (law.append (law.word (h depth) _ (by decide)) (h depth)) _ (by decide)
  have hgroup : ∀ {front back : Text}, isFlat front = true → isFlat back = true →
      sealed depth depth (front ++ operand ++ back) :=
    fun hfront hback => law.word (law.append (law.start _ hfront depth) (h depth)) _ hback
  cases filter with
  | escape => exact hguard
  | highlight => exact hguard
  | strpos =>
      have hneedle : loose depth depth (args.head?.getD "undefined".toList) := by
        cases args with
        | nil => exact law.ofSealed (law.start _ (by decide) depth)
        | cons arg args => exact hargs arg List.mem_cons_self depth
      have hsubject : sealed depth depth
          ("((".toList ++ operand ++ " + '').containsSubstring(".toList) :=
        hgroup (by decide) (by decide)
      exact law.word (law.append hsubject hneedle) _ (by decide)
  | count => exact law.word (h depth) _ (by decide)
  | isArray => exact hgroup (by decide) (by decide)
  | isset => exact law.issetCode h depth
  | empty =>
      have hcall := law.word (law.ofSealed (law.emptyHelper depth)) "(".toList (by decide)
      exact law.word (law.append hcall (h depth)) _ (by decide)
  | default => exact hgroup (by decide) (by decide)

/-! ## Expressions -/

theorem pipe (law : CodeLaw piece loose sealed tolerant) {operand spec : Text}
    (h : Level loose operand) (hspec : piece spec) :
    Level loose (Expression.pipe operand spec) := by
  intro depth
  have hsplit := splitAtBlank_append spec
  have hhead : piece (splitAtBlank spec).1 := law.part hspec ⟨[], _, hsplit⟩
  have htail : piece (splitAtBlank spec).2 :=
    law.part hspec ⟨_, [], by rw [List.append_nil]; exact hsplit⟩
  have hargs : ∀ arg ∈ (splitOutside ':' (splitAtBlank spec).1).2, Level loose arg :=
    fun arg harg => law.ofPiece
      (law.part hhead (isInfix_of_mem_splitOutside (List.mem_cons_of_mem _ harg)))
  exact law.append (law.filter _ h hargs depth) (law.ofPiece htail depth)

theorem pipes (law : CodeLaw piece loose sealed tolerant) {specs : List Text} {operand : Text}
    (h : Level loose operand) (hspecs : ∀ spec ∈ specs, piece spec) :
    Level loose (specs.foldl Expression.pipe operand) := by
  induction specs generalizing operand with
  | nil => exact h
  | cons spec specs ih =>
      have hfirst := law.pipe h (hspecs spec List.mem_cons_self)
      exact ih hfirst fun other hother => hspecs other (List.mem_cons_of_mem spec hother)

theorem callCode (law : CodeLaw piece loose sealed tolerant) {call : Call} (h : piece call.args) :
    Level sealed call.code := by
  have hparts : ∀ part ∈ (splitOutside ',' call.args).1 :: (splitOutside ',' call.args).2,
      Level loose part :=
    fun part hpart => law.ofPiece (law.part h (isInfix_of_mem_splitOutside hpart))
  exact law.filter _ (hparts _ List.mem_cons_self)
    fun arg harg => hparts arg (List.mem_cons_of_mem _ harg)

/-- The code of a call ends with a fixed word, so only at its start it may be joined. -/
theorem render (law : CodeLaw piece loose sealed tolerant) {calls : List (Text × Call)}
    {rest : Text} (hrest : piece rest)
    (hcalls : ∀ found ∈ calls, piece found.1 ∧ piece found.2.args ∧
      (found.1.getLast? = some '\x7b' → found.2.code.head? = some '%' → tolerant)) :
    Level loose (Call.render calls rest) := by
  induction calls with
  | nil => exact law.ofPiece hrest
  | cons found calls ih =>
      obtain ⟨hbefore, hargs, hjoin⟩ := hcalls found List.mem_cons_self
      have htail := ih fun other hother => hcalls other (List.mem_cons_of_mem found hother)
      intro depth
      have hcall := law.call (law.ofPiece hbefore depth) (law.callCode hargs depth)
        (Filter.code_ne_nil _ _ _) hjoin
      rw [Call.render_cons]
      exact law.append hcall (htail depth)

theorem expression (law : CodeLaw piece loose sealed tolerant) {expression : Text}
    (h : piece expression) (hjoin : Expression.JoinsCall expression → tolerant) :
    Level loose (Expression.compile expression) := by
  have hparts : ∀ part ∈ (splitPipes expression).1 :: (splitPipes expression).2, piece part :=
    fun part hpart => law.part h (isInfix_of_mem_splitPipes hpart)
  have hoperand := hparts _ List.mem_cons_self
  by_cases hcalls : (Call.splitCalls (marks (splitPipes expression).1)).1 = []
  · rw [Expression.compile_of_no_calls hcalls]
    exact law.pipes (law.ofPiece hoperand)
      fun spec hspec => hparts spec (List.mem_cons_of_mem _ hspec)
  · rw [Expression.compile_of_calls hcalls]
    apply law.render
    · have hsuffix := Call.isSuffix_splitCalls (marks (splitPipes expression).1)
      rw [ofGlyphs_marks] at hsuffix
      exact law.part hoperand hsuffix.isInfix
    · intro found hfound
      obtain ⟨hbefore, hargs⟩ := Call.isInfix_of_mem_splitCalls hfound
      rw [ofGlyphs_marks] at hbefore hargs
      refine ⟨law.part hoperand hbefore, law.part hoperand hargs, ?_⟩
      intro hlast hhead
      exact hjoin ⟨found, hfound, hlast, (Filter.head?_code _ _ _).1 hhead⟩

end CodeLaw

end TagTemplate
