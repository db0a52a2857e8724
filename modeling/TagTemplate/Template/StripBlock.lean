import TagTemplate.Template.Delimiters

/-!
# Strip blocks

A strip block is text between the tags `strip` and `/strip`.  The pass over strip blocks
takes these two tags away and keeps the text between them as it is, line feeds included.
A block ends at the first `/strip` tag behind its start; a start without an end is
literal text.
-/

namespace TagTemplate

structure StripBlock where
  opener : Text
  content : Text
  closer : Text
  deriving DecidableEq, Repr

namespace StripBlock

/-- The ways to read a tag that holds a single word, with blanks around it: the text of
the tag and what follows it.  There are several if the closing delimiter starts with a
blank. -/
def wordTags (delimiters : Delimiters) (word text : Text) : List (Text × Text) :=
  match Text.after? delimiters.opening text with
  | none => []
  | some inside =>
      match Text.after? word (Text.trimStart inside) with
      | none => []
      | some behind =>
          let front := delimiters.opening ++ inside.takeWhile isBlank ++ word
          (Text.afterBlanks delimiters.closing behind).map fun (blanks, rest) =>
            (front ++ blanks ++ delimiters.closing, rest)

theorem eq_of_mem_wordTags {delimiters : Delimiters} {word text tag rest : Text}
    (h : (tag, rest) ∈ wordTags delimiters word text) : text = tag ++ rest := by
  unfold wordTags at h
  split at h
  · cases h
  · rename_i inside hopen
    split at h
    · cases h
    · rename_i behind hword
      obtain ⟨⟨blanks, rest'⟩, hmem, heq⟩ := List.mem_map.1 h
      simp only [Prod.mk.injEq] at heq
      obtain ⟨rfl, rfl⟩ := heq
      have hsplit : inside = inside.takeWhile isBlank ++ Text.trimStart inside :=
        List.takeWhile_append_dropWhile.symm
      rw [Text.after?_eq_some_iff.1 hword,
        (Text.eq_of_mem_afterBlanks hmem).1] at hsplit
      rw [Text.after?_eq_some_iff.1 hopen]
      conv => lhs; rw [hsplit]
      simp

def openers (delimiters : Delimiters) (text : Text) : List (Text × Text) :=
  wordTags delimiters "strip".toList text

def closers (delimiters : Delimiters) (text : Text) : List (Text × Text) :=
  wordTags delimiters "/strip".toList text

/-- The text before the first tag that ends a block, that tag, and what follows it. -/
def toCloser? (delimiters : Delimiters) : Text → Option (Text × Text × Text)
  | [] => none
  | c :: text =>
      match (closers delimiters (c :: text)).head? with
      | some (closer, rest) => some ([], closer, rest)
      | none =>
          (toCloser? delimiters text).map fun (content, closer, rest) =>
            (c :: content, closer, rest)

theorem eq_of_toCloser? {delimiters : Delimiters} {text content closer rest : Text}
    (h : toCloser? delimiters text = some (content, closer, rest)) :
    text = content ++ closer ++ rest := by
  induction text generalizing content with
  | nil => simp [toCloser?] at h
  | cons c text ih =>
      simp only [toCloser?] at h
      split at h
      · rename_i hhead
        cases h
        simpa using eq_of_mem_wordTags (List.mem_of_head? hhead)
      · obtain ⟨⟨more, closer', rest'⟩, hmore, heq⟩ := Option.map_eq_some_iff.1 h
        simp only [Prod.mk.injEq] at heq
        obtain ⟨rfl, rfl, rfl⟩ := heq
        rw [ih hmore]
        rfl

def read? (delimiters : Delimiters) (text : Text) : Option (StripBlock × Text) :=
  (openers delimiters text).findSome? fun (opener, inside) =>
    (toCloser? delimiters inside).map fun (content, closer, rest) =>
      (⟨opener, content, closer⟩, rest)

theorem eq_of_read? {delimiters : Delimiters} {text rest : Text} {block : StripBlock}
    (h : read? delimiters text = some (block, rest)) :
    text = block.opener ++ block.content ++ block.closer ++ rest := by
  obtain ⟨⟨opener, inside⟩, hmem, h⟩ := List.exists_of_findSome?_eq_some h
  obtain ⟨⟨content, closer, rest'⟩, hclose, heq⟩ := Option.map_eq_some_iff.1 h
  simp only [Prod.mk.injEq] at heq
  obtain ⟨rfl, rfl⟩ := heq
  rw [eq_of_mem_wordTags hmem, eq_of_toCloser? hclose]
  simp

theorem length_of_wordTags {delimiters : Delimiters} {word text tag rest : Text}
    (h : (tag, rest) ∈ wordTags delimiters word text) : rest.length < text.length := by
  have hopen := List.length_pos_iff.2 delimiters.opening_ne_nil
  have htext := eq_of_mem_wordTags h
  unfold wordTags at h
  split at h
  · cases h
  · split at h
    · cases h
    · obtain ⟨⟨blanks, rest'⟩, hmem, heq⟩ := List.mem_map.1 h
      simp only [Prod.mk.injEq] at heq
      rw [htext, ← heq.1]
      simp only [List.length_append]
      omega

theorem length_of_read? {delimiters : Delimiters} {text rest : Text} {block : StripBlock}
    (h : read? delimiters text = some (block, rest)) : rest.length < text.length := by
  obtain ⟨⟨opener, inside⟩, hmem, h⟩ := List.exists_of_findSome?_eq_some h
  obtain ⟨⟨content, closer, rest'⟩, hclose, heq⟩ := Option.map_eq_some_iff.1 h
  simp only [Prod.mk.injEq] at heq
  have hopener := length_of_wordTags hmem
  have hinside := congrArg List.length (eq_of_toCloser? hclose)
  simp only [List.length_append] at hinside
  rw [← heq.2]
  omega

def split (delimiters : Delimiters) : Text → List (Text × StripBlock) × Text
  | [] => ([], [])
  | c :: text =>
      match h : read? delimiters (c :: text) with
      | some (block, rest) =>
          have := length_of_read? h
          let (blocks, last) := split delimiters rest
          (([], block) :: blocks, last)
      | none =>
          match split delimiters text with
          | ([], last) => ([], c :: last)
          | ((before, block) :: blocks, last) => ((c :: before, block) :: blocks, last)
termination_by text => text.length
decreasing_by
  · assumption
  · simp

/-- The text with the content of each strip block in place of the block. -/
def unwrap (delimiters : Delimiters) (text : Text) : Text :=
  let (blocks, last) := split delimiters text
  (blocks.flatMap fun (before, block) => before ++ block.content) ++ last

end StripBlock

end TagTemplate
