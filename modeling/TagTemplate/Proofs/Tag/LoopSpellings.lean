import TagTemplate.Proofs.Tag.Metadata

/-!
# Spellings of loops

A loop can be spelled with `as`, its key in front of either arrow, or with attributes in any
order.  All spellings are read to the same loop, even if a name is the word `as` or holds
characters of the arrows, so they have the same code (`Compiler.compileTag_loop_spellings`).
-/

namespace TagTemplate

open Text

namespace Loop

/-- The characters of labels: no blanks, equals signs, quotes or dollar signs. -/
def isLabelChar (c : Char) : Bool :=
  !isBlank c && !isQuote c && c != '=' && c != '$'

/-- A name that a loop can be spelled with. -/
def Label (name : Text) : Prop :=
  name ≠ [] ∧ ∀ c ∈ name, isLabelChar c = true

instance (name : Text) : Decidable (Label name) :=
  have := List.decidableBAll (fun c => isLabelChar c = true) name
  instDecidableAnd

namespace Label

variable {name : Text} (h : Label name)

include h

theorem chars {c : Char} (hc : c ∈ name) :
    isBlank c = false ∧ isQuote c = false ∧ c ≠ '=' ∧ c ≠ '$' := by
  simpa [isLabelChar, and_assoc] using h.2 c hc

theorem unbroken : Unbroken name :=
  ⟨h.1, fun _ hc => (h.chars hc).1⟩

theorem unbroken_dollar : Unbroken ('$' :: name) :=
  (show Unbroken ['$'] by decide).append h.unbroken.noBlank

theorem noEquals : '=' ∉ name :=
  fun hmem => (h.chars hmem).2.2.1 rfl

theorem noDollar : '$' ∉ name :=
  fun hmem => (h.chars hmem).2.2.2 rfl

/-- Sigils are normalized to characters that can stand in a label. -/
theorem normalize {metaMark : Text} (hmark : ∀ c ∈ metaMark, isAsciiWord c = true) :
    Label (Sigil.normalize metaMark name) := by
  constructor
  · obtain ⟨c, rest, rfl⟩ := List.exists_cons_of_ne_nil h.1
    have hc := (h.chars List.mem_cons_self).2.2.2
    rw [Sigil.normalize, if_neg hc]
    split
    · exact List.cons_ne_nil _ _
    · exact List.cons_ne_nil _ _
  · intro c hc
    rcases Sigil.mem_normalize hc with hc | rfl | hc
    · exact h.2 c hc
    · decide
    · have hword := hmark c hc
      have hne : ∀ d, isAsciiWord d = false → c ≠ d := by
        rintro d hd rfl
        rw [hword] at hd
        cases hd
      simp [isLabelChar, isBlank_of_isAsciiWord hword, isQuote_of_isAsciiWord hword,
        hne '=' (by decide), hne '$' (by decide)]

end Label

def arrows : List Text :=
  ["=>".toList, "==>".toList]

def map (f : Text → Text) (loop : Loop) : Loop where
  collection := f loop.collection
  item := f loop.item
  key := loop.key.map f

/-- The attributes that name the parts of a loop. -/
def attributes (loop : Loop) : List (Text × Text) :=
  ("from".toList, loop.collection) :: ("item".toList, loop.item) ::
    (loop.key.map fun key => ("key".toList, key)).toList

theorem attributes_map (f : Text → Text) (loop : Loop) :
    (loop.map f).attributes = loop.attributes.map fun (key, name) => (key, f name) := by
  cases hkey : loop.key <;> simp [attributes, map, hkey]

theorem parts_map (f : Text → Text) (loop : Loop) : (loop.map f).parts = loop.parts.map f := by
  cases hkey : loop.key <;> simp [parts, map, hkey]

theorem parts_eq (loop : Loop) : loop.parts = loop.attributes.map Prod.snd := by
  cases hkey : loop.key <;> simp [attributes, parts, hkey]

theorem keys_sublist (loop : Loop) :
    (loop.attributes.map Prod.fst).Sublist ["from".toList, "item".toList, "key".toList] := by
  cases hkey : loop.key <;> simp [attributes, hkey]

/-! ## Reading a target with an arrow -/

theorem splitArrow?_append {front : Text} (h : '=' ∉ front) (back : Text) :
    splitArrow? (front ++ back) =
      (splitArrow? back).map fun (key, item) => (front ++ key, item) := by
  induction front with
  | nil => simp
  | cons c front ih =>
      rw [List.mem_cons, not_or] at h
      have harrow : afterArrow? (c :: (front ++ back)) = none := by
        simp [afterArrow?, after?, h.1]
      rw [List.cons_append, splitArrow?, harrow, ih h.2]
      simp [Function.comp_def]

theorem splitArrow?_arrow {arrow : Text} (h : arrow ∈ arrows) (item : Text) :
    splitArrow? (arrow ++ item) = some ([], item) := by
  simp only [arrows, List.mem_cons, List.not_mem_nil, or_false] at h
  rcases h with rfl | rfl
  · simp [splitArrow?, afterArrow?, after?]
  · simp [splitArrow?, afterArrow?, after?]

theorem ofTarget_arrow {collection key item arrow : Text} (hkey : Unbroken key)
    (hequals : '=' ∉ key) (hitem : Unbroken item) (harrow : arrow ∈ arrows) :
    ofTarget collection (ofWords [key, arrow, item]) = ⟨collection, item, some key⟩ := by
  have hsplit : splitArrow? (ofWords [key, arrow, item]) = some (key ++ [' '], ' ' :: item) := by
    have hwords : ofWords [key, arrow, item] = (key ++ [' ']) ++ (arrow ++ ' ' :: item) := by
      simp [ofWords]
    have hfront : '=' ∉ key ++ [' '] := by simp [hequals]
    rw [hwords, splitArrow?_append hfront, splitArrow?_arrow harrow]
    simp
  have hstart : trimStart (' ' :: item) = item := by
    simpa using hitem.trimStart_cons (c := ' ') rfl []
  have hend : trimEnd (key ++ [' ']) = key := by
    have hblank : AllBlank [' '] := by decide
    rw [trimEnd_append_of_allBlank key hblank, ← trim_eq_trimEnd hkey.trimmed.first, hkey.trim]
  simp only [ofTarget, hsplit, hstart, hend]

theorem read_as_arrow {collection key item arrow : Text} (hcollection : Unbroken collection)
    (hkey : Unbroken key) (hequals : '=' ∉ key) (hitem : Unbroken item) (harrow : arrow ∈ arrows) :
    read (ofWords [collection, "as".toList, key, arrow, item]) =
      ⟨collection, item, some key⟩ := by
  have hwords : ofWords [collection, "as".toList, key, arrow, item] =
      ofWords [collection, "as".toList, ofWords [key, arrow, item]] := by
    simp [ofWords]
  have htarget : ∀ word ∈ [key, arrow, item], Unbroken word := by
    have hunbroken : ∀ arrow ∈ arrows, Unbroken arrow := by decide
    exact List.forall_mem_cons.2 ⟨hkey, List.forall_mem_cons.2
      ⟨hunbroken arrow harrow, List.forall_mem_singleton.2 hitem⟩⟩
  have hne : ofWords [key, arrow, item] ≠ [] := by
    rw [ofWords_cons_cons]
    exact List.append_ne_nil_of_left_ne_nil hkey.ne_nil _
  rw [hwords, read_as hcollection hne (trimmed_ofWords htarget)
    (not_mem_ofWords htarget (by decide) (by decide)),
    ofTarget_arrow hkey hequals hitem harrow]

/-! ## Reading attributes -/

variable {loop : Loop}

theorem Label.of_mem_attributes (h : ∀ part ∈ loop.parts, Label part) {key name : Text}
    (hmem : (key, name) ∈ loop.attributes) : Label name := by
  apply h
  rw [parts_eq]
  exact List.mem_map_of_mem hmem

theorem spelled_attributes
    (h : ∀ part ∈ loop.parts, ∀ c ∈ part, isBlank c = false ∧ isQuote c = false) :
    ∀ pair ∈ loop.attributes, Attributes.Spelled pair.1 pair.2 := by
  have hkeys : ∀ key ∈ ["from".toList, "item".toList, "key".toList],
      Unbroken key ∧ '=' ∉ key := by decide
  intro pair hpair
  obtain ⟨hkey, hequals⟩ := hkeys _ (loop.keys_sublist.mem (List.mem_map_of_mem hpair))
  have hname : ∀ c ∈ pair.2, isBlank c = false ∧ isQuote c = false := by
    apply h
    rw [parts_eq]
    exact List.mem_map_of_mem hpair
  exact ⟨Attributes.unbroken_word hkey fun c hc => (hname c hc).1, hequals,
    fun c hc => (hname c hc).2⟩

/-- The attributes of a loop can stand in any order. -/
theorem read_attributes (h : ∀ part ∈ loop.parts, Label part) {list : List Text}
    (hperm : list.Perm (Attributes.spell loop.attributes)) : read (ofWords list) = loop := by
  have hpairs := spelled_attributes fun part hpart c hc =>
    ⟨((h part hpart).chars hc).1, ((h part hpart).chars hc).2.1⟩
  have hnodup : (loop.attributes.map Prod.fst).Nodup :=
    List.Nodup.sublist loop.keys_sublist (by decide)
  have hhead : ∀ key ∈ loop.attributes.map Prod.fst, key.head?.any (· != 'a') = true := by
    have hkeys : ∀ key ∈ ["from".toList, "item".toList, "key".toList],
        key.head?.any (· != 'a') = true := by decide
    exact fun key hkey => hkeys key (loop.keys_sublist.mem hkey)
  have hident : ∀ {key name : Text}, (key, name) ∈ loop.attributes →
      (Attributes.read (ofWords (Attributes.spell loop.attributes))).ident? key = some name := by
    intro key name hmem
    rw [Attributes.ident?_spell_of_mem hpairs hnodup hmem,
      Sigil.dropDollars_eq_self (Label.of_mem_attributes h hmem).noDollar]
  rw [read_spell hpairs ⟨hnodup, hhead⟩ hperm, ofAttributes]
  obtain ⟨collection, item, key⟩ := loop
  rw [hident List.mem_cons_self, hident (List.mem_cons_of_mem _ List.mem_cons_self)]
  cases key with
  | none =>
      have hkey : "key".toList ∉ ["from".toList, "item".toList] := by decide
      rw [Attributes.ident?_spell_of_not_mem hpairs hkey]
      rfl
  | some key =>
      rw [hident (List.mem_cons_of_mem _ (List.mem_cons_of_mem _ List.mem_cons_self))]
      rfl

end Loop

/-! ## Code of loops -/

namespace Compiler

open Loop

theorem isAsciiWord_of_mem_metaMark (compiler : Compiler) (h : '$' ∉ compiler.config.metaMark) :
    ∀ c ∈ compiler.config.metaMark, isAsciiWord c = true := by
  intro c hc
  rcases compiler.metaMark_chars c hc with hword | rfl
  · exact hword
  · exact absurd hc h

variable {compiler : Compiler} {words : List Text} {loop : Loop}

theorem compileTag_loop_attributes (hmark : '$' ∉ compiler.config.metaMark)
    (h : ∀ part ∈ loop.parts, Label part)
    (hperm : words.Perm (Attributes.spell (loop.map ('$' :: ·)).attributes)) :
    compiler.compileTag (ofWords ("foreach".toList :: words)) =
      (loop.map (Sigil.normalize compiler.config.metaMark)).code compiler.config.metaMark := by
  have hdollars : ∀ part ∈ (loop.map ('$' :: ·)).parts,
      ∀ c ∈ part, isBlank c = false ∧ isQuote c = false := by
    rw [parts_map, List.forall_mem_map]
    intro name hname
    refine List.forall_mem_cons.2 ⟨by decide, fun c hc => ?_⟩
    exact ⟨((h name hname).chars hc).1, ((h name hname).chars hc).2.1⟩
  have hlabels : ∀ part ∈ (loop.map (Sigil.normalize compiler.config.metaMark)).parts,
      Label part := by
    rw [parts_map, List.forall_mem_map]
    exact fun name hname => (h name hname).normalize (compiler.isAsciiWord_of_mem_metaMark hmark)
  have hnormal : (Attributes.spell (loop.map ('$' :: ·)).attributes).map
        (Sigil.normalize compiler.config.metaMark) =
      Attributes.spell (loop.map (Sigil.normalize compiler.config.metaMark)).attributes := by
    have hkeys : ∀ key ∈ ["from".toList, "item".toList, "key".toList],
        '$' ∉ key ∧ '@' ∉ key := by decide
    simp only [Attributes.spell, attributes_map, List.map_map]
    refine List.map_congr_left fun pair hpair => ?_
    obtain ⟨hdollar, hat⟩ := hkeys _ (loop.keys_sublist.mem (List.mem_map_of_mem hpair))
    exact (Attributes.normalize_word _ hdollar hat _).trans
      (congrArg (Attributes.word pair.1) (Sigil.normalize_dollar _ _))
  apply compileTag_of_read
  · intro word hword
    exact Attributes.unbroken_of_mem_spell (spelled_attributes hdollars) word
      (hperm.mem_iff.1 hword)
  · apply Loop.read_attributes hlabels
    rw [← hnormal]
    exact hperm.map _

theorem compileTag_loop_arrow {collection item key arrow : Text}
    (hmark : '$' ∉ compiler.config.metaMark) (hcollection : Label collection) (hitem : Label item)
    (hkey : Label key) (harrow : arrow ∈ arrows) :
    compiler.compileTag (ofWords ["foreach".toList, '$' :: collection, "as".toList, '$' :: key,
        arrow, '$' :: item]) =
      ((Loop.mk collection item (some key)).map (Sigil.normalize compiler.config.metaMark)).code
        compiler.config.metaMark := by
  have hword := compiler.isAsciiWord_of_mem_metaMark hmark
  have hfixed : ∀ word ∈ "as".toList :: arrows, Unbroken word ∧ '$' ∉ word ∧ '@' ∉ word := by
    decide
  have has := hfixed _ List.mem_cons_self
  have hplain := hfixed arrow (List.mem_cons_of_mem _ harrow)
  apply compileTag_of_read
  · intro word hmem
    simp only [List.mem_cons, List.not_mem_nil, or_false] at hmem
    rcases hmem with rfl | rfl | rfl | rfl | rfl
    · exact hcollection.unbroken_dollar
    · exact has.1
    · exact hkey.unbroken_dollar
    · exact hplain.1
    · exact hitem.unbroken_dollar
  · simp only [List.map_cons, List.map_nil, Sigil.normalize_dollar,
      Sigil.normalize_eq_self _ has.2.1 has.2.2, Sigil.normalize_eq_self _ hplain.2.1 hplain.2.2]
    exact read_as_arrow (hcollection.normalize hword).unbroken (hkey.normalize hword).unbroken
      (hkey.normalize hword).noEquals (hitem.normalize hword).unbroken harrow

/-- A loop is compiled to the same code however it is spelled: with `as`, with either arrow
between its key and its item, or with its attributes in any order. -/
theorem compileTag_loop_spellings (compiler : Compiler) (hmark : '$' ∉ compiler.config.metaMark)
    {collection item key : Text} (hcollection : Label collection) (hitem : Label item)
    (hkey : Label key) :
    let mark := compiler.config.metaMark
    let tag := fun words : List Text => compiler.compileTag (ofWords ("foreach".toList :: words))
    let source := Attributes.word "from".toList ('$' :: collection)
    let target := Attributes.word "item".toList ('$' :: item)
    let counter := Attributes.word "key".toList ('$' :: key)
    (tag ['$' :: collection, "as".toList, '$' :: item] =
        ((Loop.mk collection item none).map (Sigil.normalize mark)).code mark ∧
      ∀ words, words.Perm [source, target] →
        tag words = tag ['$' :: collection, "as".toList, '$' :: item]) ∧
    (tag ['$' :: collection, "as".toList, '$' :: key, "=>".toList, '$' :: item] =
        ((Loop.mk collection item (some key)).map (Sigil.normalize mark)).code mark ∧
      tag ['$' :: collection, "as".toList, '$' :: key, "==>".toList, '$' :: item] =
        tag ['$' :: collection, "as".toList, '$' :: key, "=>".toList, '$' :: item] ∧
      ∀ words, words.Perm [source, target, counter] →
        tag words = tag ['$' :: collection, "as".toList, '$' :: key, "=>".toList, '$' :: item]) := by
  intro mark tag source target counter
  have hword := compiler.isAsciiWord_of_mem_metaMark hmark
  have hparts : ∀ part ∈ (Loop.mk collection item none).parts, Label part :=
    List.forall_mem_cons.2 ⟨hcollection, List.forall_mem_singleton.2 hitem⟩
  have hparts' : ∀ part ∈ (Loop.mk collection item (some key)).parts, Label part :=
    List.forall_mem_cons.2 ⟨hcollection, List.forall_mem_cons.2
      ⟨hitem, List.forall_mem_singleton.2 hkey⟩⟩
  have has := compiler.compileTag_as hcollection.unbroken_dollar hitem.unbroken_dollar
    (by rw [Sigil.normalize_dollar]; exact (hcollection.normalize hword).unbroken)
    (by rw [Sigil.normalize_dollar]; exact (hitem.normalize hword).unbroken)
    (by rw [Sigil.normalize_dollar]; exact (hitem.normalize hword).noEquals)
  rw [Sigil.normalize_dollar, Sigil.normalize_dollar] at has
  have harrow : ∀ arrow ∈ arrows, _ :=
    fun arrow => compileTag_loop_arrow hmark hcollection hitem hkey
  refine ⟨⟨has, fun words hperm => ?_⟩, harrow _ (by decide), ?_, fun words hperm => ?_⟩
  · exact (compileTag_loop_attributes hmark hparts hperm).trans has.symm
  · exact (harrow _ (by decide)).trans (harrow _ (by decide)).symm
  · exact (compileTag_loop_attributes hmark hparts' hperm).trans (harrow _ (by decide)).symm

/-- Names that are the word `as`, hold metadata, and begin like an arrow ends. -/
theorem compileTag_loop_spellings_of_odd_names :
    let compiler := standard
    let collection := "as".toList
    let item := ">row@last".toList
    let key := "as".toList
    '$' ∉ compiler.config.metaMark ∧ Label collection ∧ Label item ∧ Label key ∧
      compiler.compileTag "foreach key=$as item=$>row@last from=$as".toList =
        compiler.compileTag "foreach $as as $as => $>row@last".toList ∧
      compiler.compileTag "foreach $as as $as ==> $>row@last".toList =
        compiler.compileTag "foreach $as as $as => $>row@last".toList := by
  intro compiler collection item key
  have hmark : '$' ∉ compiler.config.metaMark := by decide
  have hcollection : Label collection := by decide
  have hitem : Label item := by decide
  have hkey : Label key := by decide
  obtain ⟨-, -, harrow, hattributes⟩ :=
    compileTag_loop_spellings compiler hmark hcollection hitem hkey
  have hanyOrder := hattributes
    ["key=$as".toList, "item=$>row@last".toList, "from=$as".toList] (by decide)
  exact ⟨hmark, hcollection, hitem, hkey, hanyOrder, harrow⟩

end Compiler

end TagTemplate
