import Mathlib.Logic.Relation
import TagTemplate.Proofs.Tag.Metadata

/-!
# The order of attributes

Of the words of a tag with one key the last counts, and only if the tag asks for that key
(`Attributes.find?_read_ofWords`).  So words with different keys can change places, and words
can be put in that a later one overrides or that the tag does not ask for.  The code stays the
same (`Compiler.compileTag_reworded`).
-/

namespace TagTemplate

open Text

namespace Kind

/-- The kinds of tags that read attributes. -/
def withAttributes : List Kind :=
  [foreachTag, sectionTag, assignTag]

/-- The keys that a tag asks for. -/
def attributeKeys : Kind → List Text
  | foreachTag => ["from".toList, "item".toList, "key".toList]
  | sectionTag => ["name".toList, "loop".toList]
  | assignTag => ["var".toList, "value".toList]
  | _ => []

end Kind

namespace Attributes

/-! ## Words with a key -/

/-- The key of a word of a tag, once its sigils are normalized.  A word of dollar signs has
none, since nothing is left of it. -/
def keyOf? (metaMark word : Text) : Option Text :=
  let normal := Sigil.normalize metaMark word
  if normal = [] then none else some (ofWord normal).1

def withKey (metaMark key : Text) (list : List Text) : List Text :=
  list.filter fun word => keyOf? metaMark word = some key

variable {metaMark key word : Text} {front back list list' : List Text}

theorem withKey_append (front back : List Text) :
    withKey metaMark key (front ++ back) =
      withKey metaMark key front ++ withKey metaMark key back :=
  List.filter_append front back

theorem withKey_cons_of_eq (h : keyOf? metaMark word = some key) (list : List Text) :
    withKey metaMark key (word :: list) = word :: withKey metaMark key list :=
  List.filter_cons_of_pos (by simpa using h)

theorem withKey_cons_of_ne (h : keyOf? metaMark word ≠ some key) (list : List Text) :
    withKey metaMark key (word :: list) = withKey metaMark key list :=
  List.filter_cons_of_neg (by simpa using h)

/-- Normalized words are read back, but for those of which nothing is left. -/
theorem words_ofWords_normalize (hmark : ∀ c ∈ metaMark, isBlank c = false)
    (hlist : ∀ word ∈ list, Unbroken word) :
    words (ofWords (list.map (Sigil.normalize metaMark))) =
      (list.map (Sigil.normalize metaMark)).filter fun normal => normal ≠ [] := by
  apply words_ofWords_eq_filter
  intro normal hnormal c hc
  obtain ⟨word, hword, rfl⟩ := List.mem_map.1 hnormal
  rcases Sigil.mem_normalize hc with hc | rfl | hc
  · exact (hlist word hword).noBlank c hc
  · decide
  · exact hmark c hc

/-- Of the words with a key the last one gives its value. -/
theorem find?_read_ofWords (hmark : ∀ c ∈ metaMark, isBlank c = false)
    (hlist : ∀ word ∈ list, Unbroken word) (key : Text) :
    (read (ofWords (list.map (Sigil.normalize metaMark)))).find? key =
      (withKey metaMark key list).getLast?.map
        fun word => (ofWord (Sigil.normalize metaMark word)).2 := by
  have hkey : ∀ word, (decide ((ofWord (Sigil.normalize metaMark word)).1 = key) &&
      decide (Sigil.normalize metaMark word ≠ [])) = decide (keyOf? metaMark word = some key) := by
    intro word
    by_cases hnil : Sigil.normalize metaMark word = []
    · simp [keyOf?, hnil]
    · simp [keyOf?, hnil]
  rw [read, words_ofWords_normalize hmark hlist, Table.find?_ofList_eq_getLast?, List.filter_map,
    List.filter_map, List.filter_map, List.filter_filter, withKey]
  simp only [Function.comp_def, hkey, List.getLast?_map, Option.map_map]

/-! ## Changes of the words -/

/-- A change to the words of a tag that asks for the keys: some change places, or one is put
in.  Words with the same key stay in their order, and a word that is put in has a key which
a later word has as well, or which the tag does not ask for. -/
inductive Reworded (metaMark : Text) (keys : List Text) : List Text → List Text → Prop
  | reordered {list list' : List Text} (perm : list.Perm list')
      (order : ∀ key, withKey metaMark key list = withKey metaMark key list') :
      Reworded metaMark keys list list'
  | overridden {front middle back : List Text} {word later : Text}
      (same : keyOf? metaMark word = keyOf? metaMark later) :
      Reworded metaMark keys (front ++ (middle ++ later :: back))
        (front ++ word :: (middle ++ later :: back))
  | unused {front back : List Text} {word : Text}
      (notAsked : ∀ key ∈ keys, keyOf? metaMark word ≠ some key) :
      Reworded metaMark keys (front ++ back) (front ++ word :: back)

variable {keys : List Text}

/-- A word that is put in does not count if words with its key follow, or if its key is
another one. -/
theorem getLast?_withKey_insert
    (h : keyOf? metaMark word = some key → withKey metaMark key back ≠ []) :
    (withKey metaMark key (front ++ word :: back)).getLast? =
      (withKey metaMark key (front ++ back)).getLast? := by
  by_cases hkey : keyOf? metaMark word = some key
  · have hback := h hkey
    rw [withKey_append, withKey_append, withKey_cons_of_eq hkey,
      List.getLast?_append_of_ne_nil _ (List.cons_ne_nil _ _),
      List.getLast?_append_of_ne_nil _ hback, List.getLast?_cons,
      List.getLast?_eq_some_getLast hback]
    rfl
  · rw [withKey_append, withKey_append, withKey_cons_of_ne hkey]

theorem Reworded.getLast?_withKey (h : Reworded metaMark keys list list') (hkey : key ∈ keys) :
    (withKey metaMark key list').getLast? = (withKey metaMark key list).getLast? := by
  cases h with
  | reordered perm order => rw [order]
  | overridden same =>
      apply getLast?_withKey_insert
      intro hword
      rw [withKey_append, withKey_cons_of_eq (same.symm.trans hword)]
      exact List.append_ne_nil_of_right_ne_nil _ (List.cons_ne_nil _ _)
  | unused notAsked =>
      apply getLast?_withKey_insert
      intro hword
      exact absurd hword (notAsked key hkey)

/-- Neighbours with different keys can change places. -/
theorem Reworded.swap {other : Text} (h : keyOf? metaMark word ≠ keyOf? metaMark other) :
    Reworded metaMark keys (front ++ word :: other :: back) (front ++ other :: word :: back) := by
  refine .reordered ((List.Perm.swap other word back).append_left front) fun key => ?_
  rw [withKey_append, withKey_append]
  congr 1
  by_cases hword : keyOf? metaMark word = some key
  · have hother : keyOf? metaMark other ≠ some key := fun hother => h (hword.trans hother.symm)
    rw [withKey_cons_of_eq hword, withKey_cons_of_ne hother, withKey_cons_of_ne hother,
      withKey_cons_of_eq hword]
  · rw [withKey_cons_of_ne hword]
    by_cases hother : keyOf? metaMark other = some key
    · rw [withKey_cons_of_eq hother, withKey_cons_of_eq hother, withKey_cons_of_ne hword]
    · rw [withKey_cons_of_ne hother, withKey_cons_of_ne hother, withKey_cons_of_ne hword]

theorem Reworded.subset (h : Reworded metaMark keys list list') : list ⊆ list' := by
  have hinsert : ∀ (front back : List Text) (word : Text), front ++ back ⊆ front ++ word :: back :=
    fun front back word => ((List.sublist_cons_self word back).append_left front).subset
  cases h with
  | reordered perm order => exact perm.subset
  | overridden same => exact hinsert _ _ _
  | unused notAsked => exact hinsert _ _ _

/-- The words before any number of changes are among the words behind them. -/
theorem subset_of_reworded (h : Relation.ReflTransGen (Reworded metaMark keys) list list') :
    list ⊆ list' := by
  induction h with
  | refl => exact List.Subset.refl list
  | tail _ hstep ih => exact List.Subset.trans ih hstep.subset

theorem getLast?_withKey_of_reworded
    (h : Relation.ReflTransGen (Reworded metaMark keys) list list') (hkey : key ∈ keys) :
    (withKey metaMark key list').getLast? = (withKey metaMark key list).getLast? := by
  induction h with
  | refl => rfl
  | tail _ hstep ih => exact (hstep.getLast?_withKey hkey).trans ih

end Attributes

/-! ## Code of tags with attributes -/

/-- The code depends on the keys that the tag asks for only, unless a loop is read from both
sides of an `as`. -/
theorem Kind.fragment_congr {kind : Kind} (hkind : kind ∈ withAttributes) (metaMark : Text)
    {expression other : Text}
    (h : ∀ key ∈ kind.attributeKeys,
      (Attributes.read expression).find? key = (Attributes.read other).find? key)
    (hloop : kind = foreachTag →
      Loop.splitAs? expression = none ∧ Loop.splitAs? other = none) :
    kind.fragment metaMark expression = kind.fragment metaMark other := by
  have hvalue : ∀ key ∈ kind.attributeKeys,
      (Attributes.read expression).value? key = (Attributes.read other).value? key :=
    fun key hkey => congrArg Option.join (h key hkey)
  have hident : ∀ key ∈ kind.attributeKeys,
      (Attributes.read expression).ident? key = (Attributes.read other).ident? key :=
    fun key hkey => congrArg (Option.map stripQuotes) (hvalue key hkey)
  simp only [withAttributes, List.mem_cons, List.not_mem_nil, or_false] at hkind
  rcases hkind with rfl | rfl | rfl
  · obtain ⟨hexpression, hother⟩ := hloop rfl
    have hcollection := hident "from".toList (by decide)
    have hitem := hident "item".toList (by decide)
    have hcounter := hident "key".toList (by decide)
    show (Loop.read expression).code metaMark = (Loop.read other).code metaMark
    rw [Loop.read, Loop.read, hexpression, hother]
    simp only [Loop.ofAttributes, hcollection, hitem, hcounter]
  · have hname := hident "name".toList (by decide)
    have hcollection := hident "loop".toList (by decide)
    show Fragment.counter expression = Fragment.counter other
    unfold Fragment.counter
    dsimp only
    rw [hname, hcollection]
  · have htarget := hident "var".toList (by decide)
    have htext := hvalue "value".toList (by decide)
    show Fragment.assign expression = Fragment.assign other
    unfold Fragment.assign
    dsimp only
    rw [htarget, htext]

namespace Compiler

theorem compileTag_of_words (compiler : Compiler) {kind : Kind} (hkind : kind ∈ Kind.withKeyword)
    (hne : kind ≠ .elseTag) {body : Text} {rest : List Text}
    (hwords : words body = kind.name :: rest) :
    compiler.compileTag body =
      kind.fragment compiler.config.metaMark
        (ofWords (rest.map (Sigil.normalize compiler.config.metaMark))) := by
  rw [compileTag, classify, Reading.ofBody_of_words hkind hne _ hwords]
  rfl

theorem isBlank_of_mem_metaMark (compiler : Compiler) :
    ∀ c ∈ compiler.config.metaMark, isBlank c = false := by
  intro c hc
  rcases compiler.metaMark_chars c hc with hword | rfl
  · exact isBlank_of_isAsciiWord hword
  · decide

/-- Attributes of a joined text are those of its parts, and those of the second part count
first.  So a tag with attributes keeps its code if words of it with different keys change
places, and if words are put in that a later word overrides or that the tag does not ask for;
but no word of a loop may be the word `as` then. -/
theorem compileTag_reworded (compiler : Compiler) :
    (∀ front back : Text,
      Attributes.read (front ++ ' ' :: back) =
          (Attributes.read front).override (Attributes.read back) ∧
        ∀ key, (Attributes.read (front ++ ' ' :: back)).find? key =
          ((Attributes.read back).find? key).or ((Attributes.read front).find? key)) ∧
    ∀ kind ∈ Kind.withAttributes, ∀ {body body' : Text} {list list' : List Text},
      words body = kind.name :: list → words body' = kind.name :: list' →
      Relation.ReflTransGen
        (Attributes.Reworded compiler.config.metaMark kind.attributeKeys) list list' →
      (kind = .foreachTag →
        ∀ word ∈ list', Sigil.normalize compiler.config.metaMark word ≠ "as".toList) →
      compiler.compileTag body' = compiler.compileTag body := by
  constructor
  · intro front back
    have hread : Attributes.read (front ++ ' ' :: back) =
        (Attributes.read front).override (Attributes.read back) := by
      rw [Attributes.read, words_append_cons (by decide), List.map_append, Table.ofList_append]
      rfl
    exact ⟨hread, fun key => by rw [hread, Table.find?_override]⟩
  · intro kind hkind body body' list list' hbody hbody' hreworded has
    have hkeyword : ∀ kind ∈ Kind.withAttributes, kind ∈ Kind.withKeyword ∧ kind ≠ .elseTag := by
      decide
    obtain ⟨hwith, hne⟩ := hkeyword kind hkind
    have hunbroken : ∀ {body : Text} {list : List Text}, words body = kind.name :: list →
        ∀ word ∈ list, Unbroken word := by
      intro body list hwords word hword
      exact unbroken_of_mem_words (hwords ▸ List.mem_cons_of_mem _ hword)
    rw [compiler.compileTag_of_words hwith hne hbody, compiler.compileTag_of_words hwith hne hbody']
    have hmark := compiler.isBlank_of_mem_metaMark
    apply Kind.fragment_congr hkind
    · intro key hkey
      rw [Attributes.find?_read_ofWords hmark (hunbroken hbody'),
        Attributes.find?_read_ofWords hmark (hunbroken hbody),
        Attributes.getLast?_withKey_of_reworded hreworded hkey]
    · intro hloop
      have hsplit : ∀ part ⊆ list', (∀ word ∈ part, Unbroken word) →
          Loop.splitAs? (ofWords (part.map (Sigil.normalize compiler.config.metaMark))) = none := by
        intro part hsub hpart
        apply Loop.splitAs?_eq_none
        rw [Attributes.words_ofWords_normalize hmark hpart]
        intro hmem
        obtain ⟨word, hword, heq⟩ := List.mem_map.1 (List.mem_of_mem_filter hmem)
        exact has hloop word (hsub hword) heq
      exact ⟨hsplit list' (List.Subset.refl _) (hunbroken hbody'),
        hsplit list (Attributes.subset_of_reworded hreworded) (hunbroken hbody)⟩

/-- A loop with its words the other way round, one that is overridden without having a value,
one that is not asked for, and one that is lost with its dollar sign. -/
theorem compileTag_reworded_of_loop :
    let mark := standard.config.metaMark
    let body := "foreach from=$rows item=$row".toList
    let body' := "foreach $ item note=1 item=$row from=$rows".toList
    let list := ["from=$rows".toList, "item=$row".toList]
    let list' := ["$".toList, "item".toList, "note=1".toList, "item=$row".toList,
      "from=$rows".toList]
    words body = Kind.foreachTag.name :: list ∧ words body' = Kind.foreachTag.name :: list' ∧
      Relation.ReflTransGen (Attributes.Reworded mark Kind.foreachTag.attributeKeys) list list' ∧
      (∀ word ∈ list', Sigil.normalize mark word ≠ "as".toList) ∧
      standard.compileTag body' = standard.compileTag body := by
  intro mark body body' list list'
  have hbody : words body = Kind.foreachTag.name :: list := by decide +kernel
  have hbody' : words body' = Kind.foreachTag.name :: list' := by decide +kernel
  have hreworded :
      Relation.ReflTransGen (Attributes.Reworded mark Kind.foreachTag.attributeKeys) list list' := by
    let keys := Kind.foreachTag.attributeKeys
    have hswap : Attributes.Reworded mark keys list ["item=$row".toList, "from=$rows".toList] :=
      @Attributes.Reworded.swap mark _ [] [] keys _
        (show Attributes.keyOf? mark "from=$rows".toList ≠
          Attributes.keyOf? mark "item=$row".toList by decide)
    have hitem : Attributes.Reworded mark keys ["item=$row".toList, "from=$rows".toList]
        ["item".toList, "item=$row".toList, "from=$rows".toList] :=
      @Attributes.Reworded.overridden mark keys [] [] _ _ _ (by decide)
    have hnote : Attributes.Reworded mark keys
        ["item".toList, "item=$row".toList, "from=$rows".toList]
        ["item".toList, "note=1".toList, "item=$row".toList, "from=$rows".toList] :=
      @Attributes.Reworded.unused mark keys ["item".toList] _ _ (by decide)
    have hdollar : Attributes.Reworded mark keys
        ["item".toList, "note=1".toList, "item=$row".toList, "from=$rows".toList] list' :=
      @Attributes.Reworded.unused mark keys [] _ _ (by decide)
    exact (((Relation.ReflTransGen.single hswap).tail hitem).tail hnote).tail hdollar
  have has : ∀ word ∈ list', Sigil.normalize mark word ≠ "as".toList := by decide
  exact ⟨hbody, hbody', hreworded, has, (compileTag_reworded standard).2 .foreachTag
    (by decide) hbody hbody' hreworded fun _ => has⟩

end Compiler

end TagTemplate
