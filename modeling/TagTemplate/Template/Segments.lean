import TagTemplate.Template.Delimiters

/-!
# Segments of a template

A template is cut into its tags and the literal text around them.  A tag runs from an
opening delimiter to the first closing delimiter that can end it; its body is what
stands between them without the blanks at either end, and holds no line feed.  Where no
tag can be read the opening delimiter is literal text.
-/

namespace TagTemplate

/-- A tag, as the text between its delimiters. -/
structure Tag where
  inner : Text
  deriving DecidableEq, Repr

namespace Tag

def body (tag : Tag) : Text :=
  Text.trim tag.inner

def source (delimiters : Delimiters) (tag : Tag) : Text :=
  delimiters.opening ++ tag.inner ++ delimiters.closing

/-- Reads the inner text of a tag from the start of its body, and the text behind the
tag.  The tag ends at the first place where blanks and the closing delimiter can be read;
`ready` says that the last character was no blank, since a run of blanks has to be
looked at from its start only.  A line feed that is not among those blanks ends the
search. -/
def innerFrom (closing : Text) : Bool → Text → Option (Text × Text)
  | _, [] => none
  | ready, c :: text =>
      let found :=
        if ready || !isBlank c then (Text.afterBlanks closing (c :: text)).head? else none
      match found with
      | some (inner, rest) => some (inner, rest)
      | none =>
          if c = '\n' then none
          else (innerFrom closing (!isBlank c) text).map fun (inner, rest) => (c :: inner, rest)

/-- Reads the inner text of a tag from behind the opening delimiter, and the text behind
the tag.  Blanks are taken first; if no tag can be read after them, the closing delimiter
may start with one of them. -/
def inner? (closing : Text) : Text → Option (Text × Text)
  | [] => none
  | c :: text =>
      if isBlank c then
        match inner? closing text with
        | some (inner, rest) => some (c :: inner, rest)
        | none => (Text.after? closing (c :: text)).map fun rest => ([], rest)
      else innerFrom closing true (c :: text)

theorem eq_of_innerFrom {closing text inner rest : Text} {ready : Bool}
    (h : innerFrom closing ready text = some (inner, rest)) :
    text = inner ++ closing ++ rest := by
  induction text generalizing ready inner with
  | nil => simp [innerFrom] at h
  | cons c text ih =>
      simp only [innerFrom] at h
      split at h
      · rename_i hfound
        split at hfound
        · cases h
          exact (Text.eq_of_mem_afterBlanks (List.mem_of_head? hfound)).1
        · cases hfound
      · split at h
        · cases h
        · obtain ⟨⟨more, rest'⟩, hmore, heq⟩ := Option.map_eq_some_iff.1 h
          simp only [Prod.mk.injEq] at heq
          obtain ⟨rfl, rfl⟩ := heq
          rw [ih hmore]
          rfl

theorem eq_of_inner? {closing text inner rest : Text}
    (h : inner? closing text = some (inner, rest)) : text = inner ++ closing ++ rest := by
  induction text generalizing inner with
  | nil => simp [inner?] at h
  | cons c text ih =>
      simp only [inner?] at h
      split at h
      · split at h
        · rename_i hmore
          cases h
          rw [ih hmore]
          rfl
        · obtain ⟨rest', hrest, heq⟩ := Option.map_eq_some_iff.1 h
          simp only [Prod.mk.injEq] at heq
          obtain ⟨rfl, rfl⟩ := heq
          simpa using Text.after?_eq_some_iff.1 hrest
      · exact eq_of_innerFrom h

def read? (delimiters : Delimiters) (text : Text) : Option (Tag × Text) :=
  (Text.after? delimiters.opening text).bind fun inside =>
    (inner? delimiters.closing inside).map fun (inner, rest) => (⟨inner⟩, rest)

theorem eq_of_read? {delimiters : Delimiters} {text rest : Text} {tag : Tag}
    (h : read? delimiters text = some (tag, rest)) :
    text = tag.source delimiters ++ rest := by
  obtain ⟨inside, hopen, h⟩ := Option.bind_eq_some_iff.1 h
  obtain ⟨⟨inner, rest'⟩, hinner, heq⟩ := Option.map_eq_some_iff.1 h
  simp only [Prod.mk.injEq] at heq
  obtain ⟨rfl, rfl⟩ := heq
  rw [Text.after?_eq_some_iff.1 hopen, eq_of_inner? hinner]
  simp [source]

theorem length_of_read? {delimiters : Delimiters} {text rest : Text} {tag : Tag}
    (h : read? delimiters text = some (tag, rest)) : rest.length < text.length := by
  have hopen := List.length_pos_iff.2 delimiters.opening_ne_nil
  rw [eq_of_read? h]
  simp only [source, List.length_append]
  omega

end Tag

/-- A template cut at its tags: each tag with the literal text before it, and the
literal text behind the last tag. -/
structure Segments where
  tags : List (Text × Tag)
  rest : Text
  deriving DecidableEq, Repr

namespace Segments

def push (c : Char) : Segments → Segments
  | ⟨[], rest⟩ => ⟨[], c :: rest⟩
  | ⟨(before, tag) :: tags, rest⟩ => ⟨(c :: before, tag) :: tags, rest⟩

def source (delimiters : Delimiters) (segments : Segments) : Text :=
  (segments.tags.flatMap fun (before, tag) => before ++ tag.source delimiters) ++ segments.rest

def splice (replace : Tag → Text) (segments : Segments) : Text :=
  (segments.tags.flatMap fun (before, tag) => before ++ replace tag) ++ segments.rest

def literals (segments : Segments) : List Text :=
  (segments.tags.map fun (before, _) => before) ++ [segments.rest]

def bodies (segments : Segments) : List Text :=
  segments.tags.map fun (_, tag) => tag.body

def ofText (delimiters : Delimiters) : Text → Segments
  | [] => ⟨[], []⟩
  | c :: text =>
      match h : Tag.read? delimiters (c :: text) with
      | some (tag, rest) =>
          have := Tag.length_of_read? h
          let behind := ofText delimiters rest
          ⟨([], tag) :: behind.tags, behind.rest⟩
      | none => (ofText delimiters text).push c
termination_by text => text.length
decreasing_by
  · assumption
  · simp

theorem source_ofText (delimiters : Delimiters) (text : Text) :
    (ofText delimiters text).source delimiters = text := by
  fun_induction ofText delimiters text with
  | case1 => rfl
  | case2 c text tag rest h hlt behind ih =>
      rw [Tag.eq_of_read? h]
      simp only [source] at ih
      simp [source, behind, ih]
  | case3 c text h ih =>
      cases hs : ofText delimiters text with
      | mk tags rest =>
          rw [hs] at ih
          cases tags with
          | nil => simpa [source, push] using ih
          | cons first others => simpa [source, push] using ih

/-! ## Places -/

/-- Where a tag stands in its text, counted in bytes of UTF-8, and its body. -/
structure Place where
  start : Nat
  stop : Nat
  body : Text
  deriving DecidableEq, Repr

/-- The places of tags, for a text that starts at the given offset. -/
def placesFrom (delimiters : Delimiters) : Nat → List (Text × Tag) → List Place
  | _, [] => []
  | offset, (before, tag) :: tags =>
      let start := offset + Text.byteSize before
      let stop := start + Text.byteSize (tag.source delimiters)
      ⟨start, stop, tag.body⟩ :: placesFrom delimiters stop tags

def places (delimiters : Delimiters) (segments : Segments) : List Place :=
  placesFrom delimiters 0 segments.tags

end Segments

end TagTemplate
