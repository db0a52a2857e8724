import TagTemplate.Proofs.Expression.Paths
import TagTemplate.Proofs.Tag.Seams
import TagTemplate.Proofs.Tag.Spelled
import TagTemplate.Template.Compiler

/-!
# Loop metadata

A loop hangs metadata onto its item under the metadata mark, and templates read it as
`$item@index`.  Seven kinds of tags can read it (`OperandTag`).  Three of them always name the
property that the loop has written; a condition takes parts of the mark for operator words,
and attributes drop the dollar signs of the mark (`Compiler.compileTag_metadata`).
-/

namespace TagTemplate

open Text

namespace Loop

/-- The pieces of metadata that a loop hangs onto its item. -/
def metadataNames : List Text :=
  ["index".toList, "first".toList, "last".toList]

theorem isName_of_mem_metadataNames : ∀ {piece : Text}, piece ∈ metadataNames → IsName piece := by
  decide

theorem metadata_isInfix_code (metaMark : Text) (loop : Loop) {piece : Text}
    (h : piece ∈ metadataNames) :
    loop.metadata metaMark piece ++ " = ".toList <:+: loop.code metaMark := by
  have hcode : loop.metadataCode metaMark <:+: loop.code metaMark := List.infix_append_right
  refine List.IsInfix.trans ?_ hcode
  have hhere : ∀ left right rest : Text, left ++ right <:+: left ++ (right ++ rest) :=
    fun left right rest => ⟨[], rest, List.append_assoc left right rest⟩
  have hthere : ∀ {part whole : Text} (front : Text), part <:+: whole → part <:+: front ++ whole :=
    fun _ h => h.trans List.infix_append_right
  have hvalue : ∀ {part whole : Text} (name equals value stop : Text), part <:+: whole →
      part <:+: name ++ (equals ++ (value ++ (stop ++ whole))) :=
    fun _ _ _ _ h => hthere _ (hthere _ (hthere _ (hthere _ h)))
  unfold metadataCode
  simp only [List.append_assoc]
  simp only [metadataNames, List.mem_cons, List.not_mem_nil, or_false] at h
  rcases h with rfl | rfl | rfl
  · exact hhere _ _ _
  · exact hvalue _ _ _ _ (hhere _ _ _)
  · exact hvalue _ _ _ _ (hvalue _ _ _ _ (hhere _ _ _))

/-- The code of a loop tells its collection, which ends in front of the first semicolon
behind the head of the loop. -/
theorem collection_of_code_eq {metaMark left right item : Text} (hleft : ';' ∉ left)
    (hright : ';' ∉ right)
    (h : (Loop.mk left item none).code metaMark = (Loop.mk right item none).code metaMark) :
    left = right := by
  have hcollection : ∀ collection, ∃ back, (Loop.mk collection item none).code metaMark =
      "for (let ".toList ++ item ++ "Index".toList ++ " = 0".toList ++ ", ".toList ++ item ++
        "; ".toList ++ item ++ "Index".toList ++ " < ".toList ++
        (collection ++ ".length".toList ++ ';' :: back) := by
    intro collection
    have hlength : ".length; ".toList = ".length".toList ++ [';', ' '] := by decide
    let loop := Loop.mk collection item none
    refine ⟨[' '] ++ (loop.index ++ "++".toList ++ ") \x7b ".toList ++ loop.bindItem ++
      loop.boxItem ++ loop.metadataCode metaMark), ?_⟩
    unfold code head index
    dsimp only [Option.elim_none, loop]
    rw [hlength]
    simp only [List.append_assoc, List.nil_append, List.cons_append]
  have hcut : ∀ {collection : Text}, ';' ∉ collection →
      ';' ∉ collection ++ ".length".toList := by
    intro collection hnot hmem
    rcases List.mem_append.1 hmem with hmem | hmem
    · exact hnot hmem
    · exact absurd hmem (by decide)
  obtain ⟨back, hback⟩ := hcollection left
  obtain ⟨back', hback'⟩ := hcollection right
  rw [hback, hback'] at h
  have hfirst := congrArg (cutFirst? ';') (List.append_cancel_left h)
  rw [cutFirst?_append (hcut hleft), cutFirst?_append (hcut hright)] at hfirst
  exact List.append_cancel_right (Prod.mk.inj (Option.some.inj hfirst)).1

end Loop

/-- A tag that reads an operand: it puts it out, branches on it, assigns it, counts to its
length or iterates over it. -/
inductive OperandTag
  | output
  | print
  | condition
  | value
  | count
  | source
  | collection
  deriving DecidableEq, Repr

namespace OperandTag

def body (operand target : Text) : OperandTag → Text
  | output => operand
  | print => ofWords ["print".toList, operand]
  | condition => ofWords ["if".toList, operand]
  | value =>
      ofWords ["assign".toList, Attributes.word "var".toList target,
        Attributes.word "value".toList operand]
  | count =>
      ofWords ["section".toList, Attributes.word "name".toList target,
        Attributes.word "loop".toList operand]
  | source =>
      ofWords ["foreach".toList, Attributes.word "from".toList operand,
        Attributes.word "item".toList target]
  | collection => ofWords ["foreach".toList, operand, "as".toList, '$' :: target]

/-- The code of the tag, if the operand becomes a path. -/
def code (metaMark path target : Text) : OperandTag → Text
  | output | print => "=".toList ++ path ++ ".stringify()".toList
  | condition => "if (".toList ++ path ++ ") \x7b".toList
  | value => "var ".toList ++ target ++ " = ".toList ++ path ++ ";".toList
  | count =>
      "for (var ".toList ++ target ++ " = 0; ".toList ++ target ++ " < ".toList ++ path ++
        ".length; ".toList ++ target ++ "++) \x7b".toList
  | source | collection => (Loop.mk path target none).code metaMark

/-- What the tag makes of the name of a property. -/
def spelling (property : Text) : OperandTag → Text
  | output | print | collection => property
  | condition => Operator.symbolizeFields property
  | value | count | source => Sigil.dropDollars property

def Keeps (metaMark piece : Text) : OperandTag → Prop
  | output | print | collection => True
  | condition =>
      ∀ field ∈ (fields '$' (metaMark ++ piece)).1 :: (fields '$' (metaMark ++ piece)).2,
        Operator.ofWord? field = none
  | value | count | source => '$' ∉ metaMark

end OperandTag

theorem Fragment.print_path {path : Text} (h : IsPath path) :
    print path = "=".toList ++ path ++ ".stringify()".toList := by
  have hsimple : path.all isSimpleChar = true := by
    rw [List.all_eq_true]
    intro c hc
    rcases h.chars c hc with hword | rfl | rfl
    · simp [isSimpleChar, isWord_of_isAsciiWord hword]
    · decide
    · decide
  have hne : ¬ path.isEmpty = true := by simpa using h.ne_nil
  simp only [print]
  rw [Expression.compile_path h, if_neg hne, if_pos hsimple]

namespace Reading

/-- A single word that starts with a dollar sign is put out, unless it is an assignment. -/
theorem ofBody_dollar (metaMark : Text) {operand : Text} (h : Unbroken ('$' :: operand))
    (hequals : '=' ∉ operand) :
    ofBody metaMark ('$' :: operand) = ⟨.printTag, Sigil.normalize metaMark operand⟩ := by
  have hkeyword : Kind.ofKeyword? ('$' :: operand) = none := by
    have hnot : ∀ keyword ∈ Kind.keywords, keyword.head? ≠ some '$' := by decide
    rw [← Option.not_isSome_iff_eq_none, Kind.ofKeyword?_isSome_iff]
    exact fun hmem => hnot _ hmem rfl
  have hraw : raw ('$' :: operand) = (.printTag, '$' :: operand) := by
    unfold raw
    rw [h.words]
    simp only [hkeyword]
    have hbreak : '$' :: operand ≠ Kind.breakTag.name := fun heq =>
      absurd (show some '$' = Kind.breakTag.name.head? from congrArg List.head? heq) (by decide)
    have hslash : ('$' :: operand).head? ≠ some '/' := by simp
    have hcontains : ¬ ('$' :: operand).contains '=' = true := by simp [hequals]
    rw [h.trim, ofShape, if_neg hbreak, if_neg hslash, if_neg hcontains, ite_self]
  rw [ofBody, hraw]
  simp [Sigil.normalize]

end Reading

/-! ## Attributes that hold names and paths -/

section Attributes

open Attributes

variable {target path : Text}

theorem IsName.unbroken (h : IsName target) : Unbroken target :=
  ⟨h.ne_nil, fun c hc => isBlank_of_isAsciiWord (h.2 c hc)⟩

theorem IsName.unbroken_dollar (h : IsName target) : Unbroken ('$' :: target) :=
  (show Unbroken ['$'] by decide).append h.unbroken.noBlank

theorem IsName.spelled (h : IsName target) (key : Text) (hkey : Unbroken key ∧ '=' ∉ key) :
    Spelled key target :=
  ⟨unbroken_word hkey.1 h.unbroken.noBlank, hkey.2, fun c hc => isQuote_of_isAsciiWord (h.2 c hc)⟩

theorem IsName.dropDollars (h : IsName target) : Sigil.dropDollars target = target :=
  Sigil.dropDollars_eq_self (h.not_mem (by decide))

theorem IsName.normalize (h : IsName target) (metaMark : Text) :
    Sigil.normalize metaMark ('$' :: target) = target := by
  rw [Sigil.normalize_dollar]
  exact Sigil.normalize_eq_self metaMark (h.not_mem (by decide)) (h.not_mem (by decide))

theorem Text.IsPath.spelled (h : IsPath path) (key : Text) (hkey : Unbroken key ∧ '=' ∉ key) :
    Spelled key path :=
  ⟨unbroken_word hkey.1 h.noBlank, hkey.2, h.noQuote⟩

/-- Two attributes, and no others. -/
theorem spelled_pair {key other value text : Text} (hfirst : Spelled key value)
    (hsecond : Spelled other text) :
    ∀ pair ∈ [(key, value), (other, text)], Spelled pair.1 pair.2 :=
  List.forall_mem_cons.2 ⟨hfirst, List.forall_mem_singleton.2 hsecond⟩

theorem Fragment.assign_path (htarget : IsName target) (hpath : IsPath path) :
    assign (ofWords [word "var".toList target, word "value".toList path]) =
      "var ".toList ++ target ++ " = ".toList ++ Sigil.dropDollars path ++ ";".toList := by
  have hpairs := spelled_pair (htarget.spelled "var".toList (by decide))
    (hpath.spelled "value".toList (by decide))
  have hkeys : ["var".toList, "value".toList].Nodup := by decide
  have hvar := ident?_spell_of_mem hpairs hkeys List.mem_cons_self
  have hvalue := value?_spell_of_mem hpairs hkeys (List.mem_cons_of_mem _ List.mem_cons_self)
  simp only [spell, List.map_cons, List.map_nil] at hvar hvalue
  unfold assign
  dsimp only
  rw [hvar, hvalue, htarget.dropDollars, Option.getD_some, Option.getD_some]

theorem Fragment.counter_path (htarget : IsName target) (hpath : IsPath path) :
    counter (ofWords [word "name".toList target, word "loop".toList path]) =
      "for (var ".toList ++ target ++ " = 0; ".toList ++ target ++ " < ".toList ++
        Sigil.dropDollars path ++ ".length; ".toList ++ target ++ "++) \x7b".toList := by
  have hpairs := spelled_pair (htarget.spelled "name".toList (by decide))
    (hpath.spelled "loop".toList (by decide))
  have hkeys : ["name".toList, "loop".toList].Nodup := by decide
  have hname := ident?_spell_of_mem hpairs hkeys List.mem_cons_self
  have hloop := ident?_spell_of_mem hpairs hkeys (List.mem_cons_of_mem _ List.mem_cons_self)
  simp only [spell, List.map_cons, List.map_nil] at hname hloop
  unfold counter
  dsimp only
  rw [hname, hloop, htarget.dropDollars, Option.getD_some, Option.getD_some]

theorem Loop.read_path (htarget : IsName target) (hpath : IsPath path) :
    Loop.read (ofWords [word "from".toList path, word "item".toList target]) =
      ⟨Sigil.dropDollars path, target, none⟩ := by
  have hpairs := spelled_pair (hpath.spelled "from".toList (by decide))
    (htarget.spelled "item".toList (by decide))
  have hkeys : ["from".toList, "item".toList].Nodup := by decide
  have hfrom := ident?_spell_of_mem hpairs hkeys List.mem_cons_self
  have hitem := ident?_spell_of_mem hpairs hkeys (List.mem_cons_of_mem _ List.mem_cons_self)
  have hkey := ident?_spell_of_not_mem hpairs
    (show "key".toList ∉ ["from".toList, "item".toList] by decide)
  have hread := Loop.read_spell hpairs ⟨hkeys,
    (show ∀ key ∈ ["from".toList, "item".toList], key.head?.any (· != 'a') = true by decide)⟩
    (List.Perm.refl _)
  simp only [spell, List.map_cons, List.map_nil] at hfrom hitem hkey hread
  rw [hread, Loop.ofAttributes, hfrom, hitem, hkey, htarget.dropDollars, Option.getD_some,
    Option.getD_some]

end Attributes

/-! ## What the code tells of the path -/

namespace OperandTag

theorem path_of_code_eq {tag : OperandTag} {metaMark left right target : Text} (hleft : ';' ∉ left)
    (hright : ';' ∉ right)
    (h : tag.code metaMark left target = tag.code metaMark right target) : left = right := by
  cases tag with
  | output | print | condition | value =>
      exact List.append_cancel_left (List.append_cancel_right h)
  | count =>
      have hpath := List.append_cancel_right (List.append_cancel_right (List.append_cancel_right h))
      exact List.append_cancel_left hpath
  | source | collection => exact Loop.collection_of_code_eq hleft hright h

theorem not_mem_spelling (tag : OperandTag) {segment : Text}
    (h : ∀ c ∈ segment, isAsciiWord c = true ∨ c = '$') : ';' ∉ tag.spelling segment := by
  have hsegment : ';' ∉ segment := by
    intro hmem
    rcases h _ hmem with hword | hdollar
    · exact absurd hword (by decide)
    · exact absurd hdollar (by decide)
  cases tag with
  | output | print | collection => exact hsegment
  | condition =>
      have hsymbols : ∀ entry ∈ Operator.wordTable, ∀ c ∈ entry.2.symbol, c ≠ ';' := by
        intro entry _ c hc
        have hnot := Operator.all_symbol (fun c => c != ';') (by decide) hc
        simpa using hnot
      have hpath : ∀ c ∈ '.' :: segment, c ≠ ';' := by
        rintro c hc rfl
        exact hsegment (by simpa using hc)
      have hrewrite := Operator.mem_rewrite hpath hsymbols
      rw [show '.' :: segment = [] ++ '.' :: segment from rfl,
        Operator.rewrite_path (by simp) h] at hrewrite
      intro hmem
      exact hrewrite ';' (List.mem_append_right _ (List.mem_cons_of_mem _ hmem)) rfl
  | value | count | source => exact fun hmem => hsegment (List.mem_of_mem_filter hmem)

theorem spelling_eq_self_iff {tag : OperandTag} {metaMark piece : Text} (hpiece : '$' ∉ piece)
    (h : ∀ c ∈ metaMark ++ piece, isAsciiWord c = true ∨ c = '$') :
    tag.spelling (metaMark ++ piece) = metaMark ++ piece ↔ tag.Keeps metaMark piece := by
  cases tag with
  | output | print | collection => exact iff_of_true rfl trivial
  | condition =>
      apply Operator.symbolizeFields_eq_self_iff
      exact fun c hc => (h c hc).imp_left isWord_of_isAsciiWord
  | value | count | source =>
      unfold spelling Keeps
      constructor
      · intro heq hmem
        have hkept := List.filter_eq_self.1 heq '$' (List.mem_append_left piece hmem)
        simp at hkept
      · intro hmark
        apply Sigil.dropDollars_eq_self
        rw [List.mem_append, not_or]
        exact ⟨hmark, hpiece⟩

/-- No operator word ends with the name of a piece of metadata. -/
theorem keeps_all_iff {metaMark piece : Text} (hpiece : piece ∈ Loop.metadataNames) :
    (∀ tag : OperandTag, tag.Keeps metaMark piece) ↔ '$' ∉ metaMark := by
  constructor
  · exact fun h => h .value
  · intro hmark tag
    cases tag with
    | output | print | collection => trivial
    | condition =>
        have hends : ∀ entry ∈ Operator.wordTable, ∀ piece ∈ Loop.metadataNames,
            ¬ piece <:+ entry.1 := by decide
        have hfields : fields '$' (metaMark ++ piece) = (metaMark ++ piece, []) := by
          apply fields_of_not_mem
          rw [List.mem_append, not_or]
          exact ⟨hmark, (Loop.isName_of_mem_metadataNames hpiece).not_mem (by decide)⟩
        intro field hfield
        rw [hfields, List.mem_singleton] at hfield
        by_contra hoperator
        obtain ⟨operator, hoperator⟩ := Option.ne_none_iff_exists'.1 hoperator
        apply hends _ (Operator.mem_wordTable hoperator) piece hpiece
        rw [hfield]
        exact List.suffix_append metaMark piece
    | value | count | source => exact hmark

end OperandTag

/-! ## Code of tags that read a path -/

namespace Compiler

theorem compileTag_ofWords (compiler : Compiler) {kind : Kind} (hkind : kind ∈ Kind.withKeyword)
    (hne : kind ≠ .elseTag) {rest : List Text} (hrest : ∀ word ∈ rest, Unbroken word) :
    compiler.compileTag (ofWords (kind.name :: rest)) =
      kind.fragment compiler.config.metaMark
        (ofWords (rest.map (Sigil.normalize compiler.config.metaMark))) := by
  rw [compileTag, classify, Reading.ofBody_ofWords hkind hne _ hrest]
  rfl

theorem compileTag_attributes (compiler : Compiler) {kind : Kind} (hkind : kind ∈ Kind.withKeyword)
    (hne : kind ≠ .elseTag) (key : Text) (hkey : Unbroken key ∧ '$' ∉ key ∧ '@' ∉ key)
    {value : Text} (hvalue : ∀ c ∈ value, isBlank c = false) (other : Text)
    (hother : Unbroken other ∧ '$' ∉ other ∧ '@' ∉ other) {text : Text}
    (htext : ∀ c ∈ text, isBlank c = false) :
    compiler.compileTag
        (ofWords [kind.name, Attributes.word key value, Attributes.word other text]) =
      kind.fragment compiler.config.metaMark
        (ofWords [Attributes.word key (Sigil.normalize compiler.config.metaMark value),
          Attributes.word other (Sigil.normalize compiler.config.metaMark text)]) := by
  have hrest : ∀ word ∈ [Attributes.word key value, Attributes.word other text], Unbroken word :=
    List.forall_mem_cons.2 ⟨Attributes.unbroken_word hkey.1 hvalue,
      List.forall_mem_singleton.2 (Attributes.unbroken_word hother.1 htext)⟩
  rw [compileTag_ofWords compiler hkind hne hrest, List.map_cons, List.map_singleton,
    Attributes.normalize_word _ hkey.2.1 hkey.2.2,
    Attributes.normalize_word _ hother.2.1 hother.2.2]

theorem compileTag_of_read {compiler : Compiler} {rest : List Text} {loop : Loop}
    (hrest : ∀ word ∈ rest, Unbroken word)
    (hread : Loop.read (ofWords (rest.map (Sigil.normalize compiler.config.metaMark))) = loop) :
    compiler.compileTag (ofWords ("foreach".toList :: rest)) =
      loop.code compiler.config.metaMark := by
  have hcode := compiler.compileTag_ofWords (show Kind.foreachTag ∈ Kind.withKeyword by decide)
    (by decide) hrest
  rw [← hread]
  exact hcode

theorem compileTag_as (compiler : Compiler) {operand target : Text} (hoperand : Unbroken operand)
    (htarget : Unbroken target)
    (hcollection : Unbroken (Sigil.normalize compiler.config.metaMark operand))
    (hitem : Unbroken (Sigil.normalize compiler.config.metaMark target))
    (hequals : '=' ∉ Sigil.normalize compiler.config.metaMark target) :
    compiler.compileTag (ofWords ["foreach".toList, operand, "as".toList, target]) =
      (Loop.mk (Sigil.normalize compiler.config.metaMark operand)
        (Sigil.normalize compiler.config.metaMark target) none).code compiler.config.metaMark := by
  apply compileTag_of_read
  · have has : Unbroken "as".toList := by decide
    exact List.forall_mem_cons.2 ⟨hoperand, List.forall_mem_cons.2
      ⟨has, List.forall_mem_singleton.2 htarget⟩⟩
  · rw [List.map_cons, List.map_cons, List.map_singleton,
      Sigil.normalize_eq_self _ (show '$' ∉ "as".toList by decide) (by decide)]
    exact Loop.read_as_item hcollection hitem hequals

theorem compileTag_foreach (compiler : Compiler) {operand target : Text}
    (hoperand : Unbroken operand)
    (hcollection : Unbroken (Sigil.normalize compiler.config.metaMark operand))
    (htarget : IsName target) :
    compiler.compileTag (ofWords ["foreach".toList, operand, "as".toList, '$' :: target]) =
      (Loop.mk (Sigil.normalize compiler.config.metaMark operand) target none).code
        compiler.config.metaMark := by
  have hcode := compiler.compileTag_as hoperand htarget.unbroken_dollar hcollection
    (by rw [htarget.normalize]; exact htarget.unbroken)
    (by rw [htarget.normalize]; exact htarget.not_mem (by decide))
  rwa [htarget.normalize] at hcode

/-- A tag whose operand is normalized to a path. -/
theorem compileTag_path (compiler : Compiler) {operand target root segment : Text}
    (hoperand : Unbroken ('$' :: operand)) (hequals : '=' ∉ operand) (htarget : IsName target)
    (hroot : IsName root) (hword : Operator.ofWord? root = none)
    (hsegment : ∀ c ∈ segment, isAsciiWord c = true ∨ c = '$')
    (hnormal : Sigil.normalize compiler.config.metaMark operand = root ++ '.' :: segment)
    (tag : OperandTag) :
    compiler.compileTag (tag.body ('$' :: operand) target) =
      tag.code compiler.config.metaMark (root ++ '.' :: tag.spelling segment) target := by
  have hpath := isPath_append hroot.2 hsegment
  have htext : Sigil.normalize compiler.config.metaMark target = target :=
    Sigil.normalize_eq_self _ (htarget.not_mem (by decide)) (htarget.not_mem (by decide))
  have hdrop : Sigil.dropDollars (root ++ '.' :: segment) =
      root ++ '.' :: Sigil.dropDollars segment := by
    have hroot := hroot.dropDollars
    simp only [Sigil.dropDollars] at hroot ⊢
    rw [List.filter_append, hroot, List.filter_cons_of_pos (by decide)]
  have hsingle := List.forall_mem_singleton.2 hoperand
  cases tag with
  | output =>
      have hread := Reading.ofBody_dollar compiler.config.metaMark hoperand hequals
      rw [hnormal] at hread
      have hcode : compiler.compileTag ('$' :: operand) =
          Kind.printTag.fragment compiler.config.metaMark (root ++ '.' :: segment) := by
        rw [compileTag, classify, hread]
        rfl
      exact hcode.trans (Fragment.print_path hpath)
  | print =>
      have hcode := compiler.compileTag_ofWords (show Kind.printTag ∈ Kind.withKeyword by decide)
        (by decide) hsingle
      rw [List.map_singleton, Sigil.normalize_dollar, hnormal, ofWords_singleton] at hcode
      exact hcode.trans (Fragment.print_path hpath)
  | condition =>
      have hcode := compiler.compileTag_ofWords (show Kind.ifTag ∈ Kind.withKeyword by decide)
        (by decide) hsingle
      rw [List.map_singleton, Sigil.normalize_dollar, hnormal, ofWords_singleton] at hcode
      have hcondition : Fragment.condition (root ++ '.' :: segment) =
          root ++ '.' :: Operator.symbolizeFields segment := by
        rw [Fragment.condition, Operator.compile_rewrite hpath,
          Operator.rewrite_path hroot.2 hsegment, Operator.symbolize, hword]
        rfl
      have hfragment : Kind.ifTag.fragment compiler.config.metaMark (root ++ '.' :: segment) =
          "if (".toList ++ Fragment.condition (root ++ '.' :: segment) ++ ") \x7b".toList := rfl
      rw [hfragment, hcondition] at hcode
      exact hcode
  | value =>
      have hcode := compiler.compileTag_attributes
        (show Kind.assignTag ∈ Kind.withKeyword by decide) (by decide) "var".toList (by decide)
        htarget.unbroken.noBlank "value".toList (by decide) hoperand.noBlank
      have hassign := Fragment.assign_path htarget hpath
      rw [htext, Sigil.normalize_dollar, hnormal] at hcode
      rw [hdrop] at hassign
      exact hcode.trans hassign
  | count =>
      have hcode := compiler.compileTag_attributes
        (show Kind.sectionTag ∈ Kind.withKeyword by decide) (by decide) "name".toList (by decide)
        htarget.unbroken.noBlank "loop".toList (by decide) hoperand.noBlank
      have hcounter := Fragment.counter_path htarget hpath
      rw [htext, Sigil.normalize_dollar, hnormal] at hcode
      rw [hdrop] at hcounter
      exact hcode.trans hcounter
  | source =>
      have hcode := compiler.compileTag_attributes
        (show Kind.foreachTag ∈ Kind.withKeyword by decide) (by decide) "from".toList (by decide)
        hoperand.noBlank "item".toList (by decide) htarget.unbroken.noBlank
      have hloop := Loop.read_path htarget hpath
      rw [htext, Sigil.normalize_dollar, hnormal] at hcode
      rw [hdrop] at hloop
      exact hcode.trans (congrArg (Loop.code compiler.config.metaMark) hloop)
  | collection =>
      have hcollection : Unbroken (Sigil.normalize compiler.config.metaMark ('$' :: operand)) := by
        rw [Sigil.normalize_dollar, hnormal]
        exact ⟨hpath.ne_nil, hpath.noBlank⟩
      have hloop := compiler.compileTag_foreach hoperand hcollection htarget
      rw [Sigil.normalize_dollar, hnormal] at hloop
      exact hloop

theorem metaMark_chars (compiler : Compiler) :
    ∀ c ∈ compiler.config.metaMark, isAsciiWord c = true ∨ c = '$' := by
  have hvalid := ((Config.valid_iff _).1 compiler.valid).2.2
  simp only [Config.isMetaMark, Bool.and_eq_true, List.all_eq_true] at hvalid
  intro c hc
  have hchar := hvalid.1.2 c hc
  rwa [Config.isMetaMarkChar, Bool.or_eq_true, beq_iff_eq] at hchar

/-- Metadata is written by a loop and read by seven kinds of tags.  A tag that keeps the
metadata mark reads the property that the loop writes, and no other tag does; all of them
keep a mark without dollar signs, and no other mark. -/
theorem compileTag_metadata (compiler : Compiler) {rows item target piece : Text}
    (hrows : IsName rows) (hitem : IsName item) (htarget : IsName target)
    (hword : Operator.ofWord? item = none) (hpiece : piece ∈ Loop.metadataNames) :
    let mark := compiler.config.metaMark
    let loop : Loop := ⟨rows, item, none⟩
    let written := '$' :: item ++ '@' :: piece
    compiler.compileTag (ofWords ["foreach".toList, '$' :: rows, "as".toList, '$' :: item]) =
        loop.code mark ∧
      loop.metadata mark piece ++ " = ".toList <:+: loop.code mark ∧
      (∀ tag : OperandTag,
        compiler.compileTag (tag.body written target) =
            tag.code mark (item ++ '.' :: tag.spelling (mark ++ piece)) target ∧
          (compiler.compileTag (tag.body written target) =
            tag.code mark (loop.metadata mark piece) target ↔ tag.Keeps mark piece)) ∧
      ((∀ tag : OperandTag, tag.Keeps mark piece) ↔ '$' ∉ mark) := by
  intro mark loop written
  have hname := Loop.isName_of_mem_metadataNames hpiece
  have hsegment : ∀ c ∈ mark ++ piece, isAsciiWord c = true ∨ c = '$' := by
    intro c hc
    rcases List.mem_append.1 hc with hc | hc
    · exact compiler.metaMark_chars c hc
    · exact Or.inl (hname.2 c hc)
  have hmetadata : loop.metadata mark piece = item ++ '.' :: (mark ++ piece) := by
    rw [Loop.metadata, List.append_assoc, List.append_assoc]
    rfl
  have hnormal : Sigil.normalize mark (item ++ '@' :: piece) = item ++ '.' :: (mark ++ piece) := by
    rw [Sigil.normalize_append, Sigil.normalize, if_neg (by decide), if_pos rfl,
      Sigil.normalize_eq_self mark (hitem.not_mem (by decide)) (hitem.not_mem (by decide)),
      Sigil.normalize_eq_self mark (hname.not_mem (by decide)) (hname.not_mem (by decide))]
    rfl
  have hwritten : Unbroken written :=
    hitem.unbroken_dollar.append (List.forall_mem_cons.2 ⟨by decide, hname.unbroken.noBlank⟩)
  have hequals : '=' ∉ item ++ '@' :: piece := by
    rw [List.mem_append, List.mem_cons, not_or, not_or]
    exact ⟨hitem.not_mem (by decide), by decide, hname.not_mem (by decide)⟩
  refine ⟨?_, Loop.metadata_isInfix_code mark loop hpiece, fun tag => ?_,
    OperandTag.keeps_all_iff hpiece⟩
  · have hcode := compiler.compileTag_foreach hrows.unbroken_dollar
      (by rw [hrows.normalize]; exact hrows.unbroken) hitem
    rwa [hrows.normalize] at hcode
  · have hcode := compiler.compileTag_path hwritten hequals htarget hitem hword hsegment hnormal tag
    refine ⟨hcode, ?_⟩
    have hsemicolon : ∀ text, ';' ∉ text → ';' ∉ item ++ '.' :: text := by
      intro text htext
      rw [List.mem_append, List.mem_cons, not_or, not_or]
      exact ⟨hitem.not_mem (by decide), by decide, htext⟩
    have hplain : ';' ∉ mark ++ piece := OperandTag.output.not_mem_spelling hsegment
    rw [show compiler.compileTag (tag.body written target) = _ from hcode, hmetadata,
      ← OperandTag.spelling_eq_self_iff (hname.not_mem (by decide)) hsegment]
    -- The code tells the path only up to a semicolon; neither spelling has one.
    constructor
    · intro heq
      have hpath := OperandTag.path_of_code_eq (hsemicolon _ (tag.not_mem_spelling hsegment))
        (hsemicolon _ hplain) heq
      exact (List.cons.inj (List.append_cancel_left hpath)).2
    · intro heq
      rw [heq]

/-- A mark that a condition and the attributes spell differently. -/
theorem compileTag_metadata_of_dollar_mark :
    let compiler : Compiler := ⟨{ Config.standard with metaMark := "or$".toList }, by decide⟩
    let item := "row".toList
    IsName "rows".toList ∧ IsName item ∧ IsName "v".toList ∧ Operator.ofWord? item = none ∧
      "index".toList ∈ Loop.metadataNames ∧
      (∀ tag : OperandTag, compiler.compileTag (tag.body "$row@index".toList "v".toList) =
        tag.code "or$".toList (item ++ '.' :: tag.spelling "or$index".toList) "v".toList) ∧
      OperandTag.condition.spelling "or$index".toList = "||$index".toList ∧
      OperandTag.value.spelling "or$index".toList = "orindex".toList := by
  intro compiler item
  have hrows : IsName "rows".toList := by decide
  have hitem : IsName item := by decide
  have htarget : IsName "v".toList := by decide
  have hword : Operator.ofWord? item = none := by decide
  have hpiece : "index".toList ∈ Loop.metadataNames := by decide
  have hmetadata := compileTag_metadata compiler hrows hitem htarget hword hpiece
  exact ⟨hrows, hitem, htarget, hword, hpiece, fun tag => (hmetadata.2.2.1 tag).1,
    by decide +kernel, by decide +kernel⟩

/-- The loop writes the property with the dollar sign, and an assignment reads the one
without it. -/
theorem compileTag_assign_drops_mark :
    let compiler : Compiler := ⟨{ Config.standard with metaMark := "$m".toList }, by decide⟩
    (Loop.mk "rows".toList "row".toList none).metadata "$m".toList "index".toList =
        "row.$mindex".toList ∧
      compiler.compileTag "print $row@index".toList = "=row.$mindex.stringify()".toList ∧
      compiler.compileTag "assign var=v value=$row@index".toList = "var v = row.mindex;".toList ∧
      compiler.compileTag "assign var=v value=$row@index".toList ≠
        "var v = row.$mindex;".toList := by
  decide +kernel

end Compiler

end TagTemplate
