import TagTemplate.Proofs.Tag.Parts
import TagTemplate.Proofs.Text.Token
import TagTemplate.Proofs.Text.Words

/-!
# Bodies spelled in words

What a tag reads from a body that is put together from words: the sigils of each word
are normalized by themselves (`Reading.ofBody_ofWords`), each `key=value` word is an
attribute, in whatever order (`Attributes.ident?_spell_of_mem`), and a loop is read from both
sides of an `as` or from attributes (`Loop.read_as`, `Loop.read_spell`).
-/

namespace TagTemplate

open Text

namespace Sigil

theorem normalize_eq_self (metaMark : Text) {raw : Text} (hdollar : '$' ∉ raw) (hat : '@' ∉ raw) :
    normalize metaMark raw = raw := by
  induction raw with
  | nil => rfl
  | cons c raw ih =>
      rw [List.mem_cons, not_or] at hdollar hat
      rw [normalize, if_neg (Ne.symm hdollar.1), if_neg (Ne.symm hat.1), ih hdollar.2 hat.2]

theorem normalize_dollar (metaMark raw : Text) :
    normalize metaMark ('$' :: raw) = normalize metaMark raw := by
  rw [normalize, if_pos rfl]

theorem normalize_ofWords (metaMark : Text) (list : List Text) :
    normalize metaMark (ofWords list) = ofWords (list.map (normalize metaMark)) := by
  induction list with
  | nil => rfl
  | cons word list ih =>
      cases list with
      | nil => rw [List.map_singleton, ofWords_singleton, ofWords_singleton]
      | cons next others =>
          have hspace : normalize metaMark (' ' :: ofWords (next :: others)) =
              ' ' :: normalize metaMark (ofWords (next :: others)) := by
            rw [normalize, if_neg (by decide), if_neg (by decide)]
          rw [ofWords_cons_cons, normalize_append, hspace, ih]
          exact (ofWords_cons_cons _ _ _).symm

end Sigil

namespace Reading

/-- A keyword takes all the words behind it, `else` apart. -/
theorem ofBody_of_words {kind : Kind} (hkind : kind ∈ Kind.withKeyword) (hne : kind ≠ .elseTag)
    (metaMark : Text) {body : Text} {rest : List Text} (hwords : words body = kind.name :: rest) :
    ofBody metaMark body = ⟨kind, ofWords (rest.map (Sigil.normalize metaMark))⟩ := by
  have hof : ∀ kind ∈ Kind.withKeyword, Kind.ofKeyword? kind.name = some kind := by decide
  have hraw : raw body = (kind, ofWords rest) := by
    unfold raw
    rw [hwords]
    simp only [hof kind hkind]
    unfold ofKeyword
    cases rest with
    | nil => rfl
    | cons word others => simp [hne]
  rw [ofBody, hraw]
  simp only [Sigil.normalize_ofWords]

theorem ofBody_ofWords {kind : Kind} (hkind : kind ∈ Kind.withKeyword) (hne : kind ≠ .elseTag)
    (metaMark : Text) {rest : List Text} (hrest : ∀ word ∈ rest, Unbroken word) :
    ofBody metaMark (ofWords (kind.name :: rest)) =
      ⟨kind, ofWords (rest.map (Sigil.normalize metaMark))⟩ := by
  have hname : ∀ kind ∈ Kind.withKeyword, Unbroken kind.name := by decide
  exact ofBody_of_words hkind hne metaMark
    (words_ofWords (List.forall_mem_cons.2 ⟨hname kind hkind, hrest⟩))

end Reading

namespace Attributes

def word (key value : Text) : Text :=
  key ++ '=' :: value

theorem unbroken_word {key value : Text} (hkey : Unbroken key)
    (hvalue : ∀ c ∈ value, isBlank c = false) : Unbroken (word key value) := by
  refine hkey.append fun c hc => ?_
  rcases List.mem_cons.1 hc with rfl | hc
  · decide
  · exact hvalue c hc

/-- A key and a value that can be spelled in one word, with no quotes around the value. -/
structure Spelled (key value : Text) : Prop where
  unbroken : Unbroken (word key value)
  noEquals : '=' ∉ key
  noQuote : ∀ c ∈ value, isQuote c = false

theorem Spelled.noBlank {key value : Text} (h : Spelled key value) :
    ∀ c ∈ value, isBlank c = false :=
  fun c hc => h.unbroken.noBlank c (by simp [word, hc])

theorem normalize_word (metaMark : Text) {key : Text} (hdollar : '$' ∉ key) (hat : '@' ∉ key)
    (value : Text) :
    Sigil.normalize metaMark (word key value) = word key (Sigil.normalize metaMark value) := by
  rw [word, Sigil.normalize_append, Sigil.normalize_eq_self metaMark hdollar hat,
    Sigil.normalize, if_neg (by decide), if_neg (by decide)]
  rfl

theorem ofWord_word {key : Text} (h : '=' ∉ key) (value : Text) :
    ofWord (word key value) = (key, some (Sigil.dropDollars value)) := by
  rw [ofWord, word, cutFirst?_append h]

theorem Spelled.stripQuotes {key value : Text} (h : Spelled key value) :
    stripQuotes (Sigil.dropDollars value) = Sigil.dropDollars value := by
  have hmem : ∀ c ∈ Sigil.dropDollars value, c ∈ value := fun c hc => List.mem_of_mem_filter hc
  rw [stripQuotes_eq_trim fun c hc => h.noQuote c (hmem c hc)]
  exact trim_of_no_blank fun c hc => h.noBlank c (hmem c hc)

def spell (pairs : List (Text × Text)) : List Text :=
  pairs.map fun (key, value) => word key value

section Spell

variable {pairs : List (Text × Text)} (hpairs : ∀ pair ∈ pairs, Spelled pair.1 pair.2)

include hpairs

theorem unbroken_of_mem_spell : ∀ word ∈ spell pairs, Unbroken word := by
  intro word hword
  obtain ⟨pair, hpair, rfl⟩ := List.mem_map.1 hword
  exact (hpairs pair hpair).unbroken

theorem map_ofWord_spell : (spell pairs).map ofWord =
    pairs.map fun (key, value) => (key, some (Sigil.dropDollars value)) := by
  rw [spell, List.map_map]
  exact List.map_congr_left fun pair hpair => ofWord_word (hpairs pair hpair).noEquals pair.2

theorem read_spell : read (ofWords (spell pairs)) =
    Table.ofList (pairs.map fun (key, value) => (key, some (Sigil.dropDollars value))) := by
  rw [read, words_ofWords (unbroken_of_mem_spell hpairs), map_ofWord_spell hpairs]

theorem find?_read_perm (hkeys : (pairs.map Prod.fst).Nodup) {list : List Text}
    (hperm : list.Perm (spell pairs)) (key : Text) :
    (read (ofWords list)).find? key = (read (ofWords (spell pairs))).find? key := by
  have hwords : ∀ word ∈ list, Unbroken word :=
    fun word hword => unbroken_of_mem_spell hpairs word (hperm.mem_iff.1 hword)
  have hentries := hperm.map ofWord
  rw [read, read, words_ofWords hwords, words_ofWords (unbroken_of_mem_spell hpairs)]
  refine Table.find?_ofList_perm ?_ hentries key
  rw [(hentries.map Prod.fst).nodup_iff, map_ofWord_spell hpairs, List.map_map]
  exact hkeys

theorem value?_spell_of_mem (hkeys : (pairs.map Prod.fst).Nodup) {key value : Text}
    (h : (key, value) ∈ pairs) :
    (read (ofWords (spell pairs))).value? key = some (Sigil.dropDollars value) := by
  have hmem : (key, some (Sigil.dropDollars value)) ∈
      pairs.map fun (key, value) => (key, some (Sigil.dropDollars value)) :=
    List.mem_map_of_mem h
  have hentries : ((pairs.map fun (key, value) => (key, some (Sigil.dropDollars value))).map
      Prod.fst).Nodup := by
    rwa [List.map_map]
  rw [value?, read_spell hpairs, Table.find?_ofList_of_mem hentries hmem]
  rfl

theorem ident?_spell_of_mem (hkeys : (pairs.map Prod.fst).Nodup) {key value : Text}
    (h : (key, value) ∈ pairs) :
    (read (ofWords (spell pairs))).ident? key = some (Sigil.dropDollars value) := by
  rw [ident?, value?_spell_of_mem hpairs hkeys h, Option.map_some, (hpairs _ h).stripQuotes]

theorem ident?_spell_of_not_mem {key : Text} (h : key ∉ pairs.map Prod.fst) :
    (read (ofWords (spell pairs))).ident? key = none := by
  rw [ident?, value?, read_spell hpairs, Table.find?_ofList_of_not_mem]
  · rfl
  · rwa [List.map_map]

end Spell

end Attributes

namespace Loop

theorem target?_of_head {text : Text} (h : ∀ c ∈ text.head?, isBlank c = false) :
    target? text = none := by
  refine if_neg ?_
  cases text with
  | nil => simp
  | cons c text => simpa using h c rfl

/-- No cut is made inside a word. -/
theorem splitAs?_append {word : Text} (h : Unbroken word) (rest : Text) :
    splitAs? (word ++ rest) = ((target? rest).map fun target => (word, target)).or
      ((splitAs? rest).map fun (collection, target) => (word ++ collection, target)) := by
  obtain ⟨hne, hblank⟩ := h
  -- The cut takes one character at least, so the last one of the word is the base case.
  induction word with
  | nil => exact absurd rfl hne
  | cons c word ih =>
      rw [List.forall_mem_cons] at hblank
      have hfeed : c ≠ '\n' := by
        rintro rfl
        exact absurd hblank.1 (by decide)
      rw [List.cons_append, splitAs?, if_neg hfeed]
      by_cases hword : word = []
      · subst hword
        cases htarget : target? rest with
        | none => simp [htarget]
        | some target => simp [htarget]
      · have hhead : ∀ d ∈ (word ++ rest).head?, isBlank d = false := by
          intro d hd
          rw [List.head?_append_of_ne_nil _ hword] at hd
          exact hblank.2 d (List.mem_of_mem_head? hd)
        rw [target?_of_head hhead, ih hword hblank.2]
        cases htarget : target? rest with
        | none => simp [Function.comp_def]
        | some target => simp

theorem target?_as {target : Text} (hne : target ≠ []) (htrim : Trimmed target)
    (hfeed : '\n' ∉ target) : target? (' ' :: ("as".toList ++ ' ' :: target)) = some target := by
  have hstart := (show Unbroken "as".toList by decide).trimStart_cons (c := ' ') rfl (' ' :: target)
  have hrest : trimStart (' ' :: target) = target := by
    obtain ⟨c, rest, rfl⟩ := List.exists_cons_of_ne_nil hne
    simp [trimStart, htrim.first c rfl, show isBlank ' ' = true by decide]
  have hgap : (' ' :: target).takeWhile isBlank ≠ [] := by
    rw [List.takeWhile_cons_of_pos rfl]
    exact List.cons_ne_nil _ _
  have hend : trimEnd target = target := by
    rw [← trim_eq_trimEnd htrim.first, htrim.trim_eq]
  unfold target?
  rw [List.head?_cons, if_pos (show (some ' ').any isBlank = true from rfl), hstart,
    after?_append, Option.bind_some]
  simp only [hrest, hend]
  rw [if_neg (by simp [hne]), if_neg (by simp [hgap, hfeed])]

theorem splitArrow?_eq_none {target : Text} (h : '=' ∉ target) : splitArrow? target = none := by
  induction target with
  | nil => rfl
  | cons c target ih =>
      rw [List.mem_cons, not_or] at h
      have harrow : afterArrow? (c :: target) = none := by
        simp [afterArrow?, after?, h.1]
      simp [splitArrow?, harrow, ih h.2]

/-- A loop that is written with `as`. -/
theorem read_as {collection target : Text} (hcollection : Unbroken collection)
    (hne : target ≠ []) (htrim : Trimmed target) (hfeed : '\n' ∉ target) :
    read (ofWords [collection, "as".toList, target]) = ofTarget collection target := by
  have hsplit : splitAs? (ofWords [collection, "as".toList, target]) =
      some (collection, target) := by
    have hwords : ofWords [collection, "as".toList, target] =
        collection ++ ' ' :: ("as".toList ++ ' ' :: target) := by
      simp [ofWords]
    rw [hwords, splitAs?_append hcollection, target?_as hne htrim hfeed]
    rfl
  rw [read, hsplit]
  simp only [hcollection.trim]

theorem read_as_item {collection item : Text} (hcollection : Unbroken collection)
    (hitem : Unbroken item) (hequals : '=' ∉ item) :
    read (ofWords [collection, "as".toList, item]) = ⟨collection, item, none⟩ := by
  rw [read_as hcollection hitem.ne_nil hitem.trimmed (hitem.not_mem (by decide)), ofTarget,
    splitArrow?_eq_none hequals]

/-- A target is read behind the word `as` only. -/
theorem mem_words_of_target? {text target : Text} (h : target? text = some target) :
    ∃ blank rest, isBlank blank = true ∧ text = blank :: rest ∧ "as".toList ∈ words rest := by
  unfold target? at h
  split at h
  · rename_i hhead
    obtain ⟨behind, hbehind, h⟩ := Option.bind_eq_some_iff.1 h
    rw [after?_eq_some_iff] at hbehind
    obtain ⟨blank, rest, rfl⟩ : ∃ blank rest, text = blank :: rest := by
      cases text with
      | nil => simp at hhead
      | cons blank rest => exact ⟨blank, rest, rfl⟩
    have hblank : isBlank blank = true := by simpa using hhead
    -- Whether the target is empty or not, a blank has to follow the word.
    obtain ⟨next, more, rfl, hnext⟩ : ∃ next more, behind = next :: more ∧ isBlank next = true := by
      cases behind with
      | nil => simp [trimStart] at h
      | cons next more =>
          refine ⟨next, more, rfl, ?_⟩
          by_contra hnext
          simp [trimStart, hnext] at h
    have hwords : words rest = words "as".toList ++ words more := by
      rw [← words_append_cons hnext, ← hbehind, words_trimStart, words_cons, if_pos hblank]
    refine ⟨blank, rest, hblank, rfl, ?_⟩
    rw [hwords, (show Unbroken "as".toList by decide).words]
    exact List.mem_append_left _ List.mem_cons_self
  · cases h

/-- Without the word `as` there is nothing to cut. -/
theorem splitAs?_eq_none {text : Text} (h : "as".toList ∉ words text) : splitAs? text = none := by
  rw [Option.eq_none_iff_forall_ne_some]
  rintro ⟨collection, target⟩ hsplit
  obtain ⟨rest, rfl, htarget⟩ := splitAs?_eq_some hsplit
  obtain ⟨blank, more, hblank, rfl, hmem⟩ := mem_words_of_target? htarget
  rw [words_append_cons hblank] at h
  exact h (List.mem_append_right _ hmem)

/-- A loop is read from its attributes, whatever their order, if none of them can be taken for
the word `as`. -/
theorem read_spell {pairs : List (Text × Text)} {list : List Text}
    (hpairs : ∀ pair ∈ pairs, Attributes.Spelled pair.1 pair.2)
    (hkeys : (pairs.map Prod.fst).Nodup ∧
      ∀ key ∈ pairs.map Prod.fst, key.head?.any (· != 'a') = true)
    (hperm : list.Perm (Attributes.spell pairs)) :
    read (ofWords list) = ofAttributes (Attributes.read (ofWords (Attributes.spell pairs))) := by
  have hunbroken : ∀ word ∈ list, Unbroken word :=
    fun word hword => Attributes.unbroken_of_mem_spell hpairs word (hperm.mem_iff.1 hword)
  have hsplit : splitAs? (ofWords list) = none := by
    apply splitAs?_eq_none
    rw [words_ofWords hunbroken, hperm.mem_iff]
    intro hmem
    obtain ⟨⟨key, value⟩, hpair, heq⟩ := List.mem_map.1 hmem
    have hkey := hkeys.2 key (List.mem_map_of_mem hpair)
    cases key with
    | nil => cases hkey
    | cons c key =>
        obtain rfl : c = 'a' := (List.cons.inj heq).1
        exact absurd hkey (by simp)
  have hident : ∀ key, (Attributes.read (ofWords list)).ident? key =
      (Attributes.read (ofWords (Attributes.spell pairs))).ident? key := by
    intro key
    rw [Attributes.ident?, Attributes.ident?, Attributes.value?, Attributes.value?,
      Attributes.find?_read_perm hpairs hkeys.1 hperm]
  rw [read, hsplit]
  simp only [ofAttributes, hident]

end Loop

end TagTemplate
