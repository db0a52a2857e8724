import TagTemplate.Text.Basic

/-!
# Quoted literals

A single or double quote opens a literal, which runs to the next such quote; a
backslash inside a literal takes the character after it along, and a literal that
is never closed runs to the end of the text.

Two readings are given.  `marks` goes through a text character by character and
says of each one whether it belongs to a literal; every cut outside literals is
made on these marks.  `pieces` takes whole literals and the bare runs between
them, for the rewriting that leaves literals alone.
-/

namespace TagTemplate.Text

def isQuote (c : Char) : Bool :=
  c == '\x22' || c == '\x27'

/-! ## Marks -/

/-- Where a character stands with regard to the literals of its text. -/
inductive Mode
  | outside
  | inside (quote : Char)
  | escaped (quote : Char)
  deriving DecidableEq, Repr

namespace Mode

def next : Mode → Char → Mode
  | outside, c => if isQuote c then inside c else outside
  | inside quote, c =>
      if c = '\\' then escaped quote else if c = quote then outside else inside quote
  | escaped quote, _ => inside quote

/-- In this mode the character belongs to a literal, its quotes included. -/
def covers : Mode → Char → Bool
  | outside, c => isQuote c
  | _, _ => true

def after (mode : Mode) (text : Text) : Mode :=
  text.foldl next mode

end Mode

/-- A character of a text, with the knowledge whether it belongs to a literal. -/
structure Glyph where
  char : Char
  quoted : Bool
  deriving DecidableEq, Repr

def Glyph.isBare (c : Char) (glyph : Glyph) : Bool :=
  !glyph.quoted && glyph.char == c

def ofGlyphs (glyphs : List Glyph) : Text :=
  glyphs.map Glyph.char

def marksFrom : Mode → Text → List Glyph
  | _, [] => []
  | mode, c :: text => ⟨c, mode.covers c⟩ :: marksFrom (mode.next c) text

/-- Marks the characters of a text that belong to literals. -/
def marks (text : Text) : List Glyph :=
  marksFrom .outside text

@[simp] theorem ofGlyphs_marksFrom (mode : Mode) (text : Text) :
    ofGlyphs (marksFrom mode text) = text := by
  induction text generalizing mode with
  | nil => rfl
  | cons c text ih =>
      have h := ih (mode.next c)
      simp only [ofGlyphs] at h
      simp [marksFrom, ofGlyphs, h]

@[simp] theorem ofGlyphs_marks (text : Text) : ofGlyphs (marks text) = text :=
  ofGlyphs_marksFrom .outside text

theorem marksFrom_append (mode : Mode) (front back : Text) :
    marksFrom mode (front ++ back) =
      marksFrom mode front ++ marksFrom (mode.after front) back := by
  induction front generalizing mode with
  | nil => rfl
  | cons c front ih => simp [marksFrom, ih, Mode.after]

/-! ## Cuts outside literals -/

/-- Cuts marked text at the characters that `isCut` picks out by looking at the
character and its two neighbours: the first part and the other parts. -/
def cutWhere (isCut : Option Glyph → Glyph → Option Glyph → Bool) :
    Option Glyph → List Glyph → List Glyph × List (List Glyph)
  | _, [] => ([], [])
  | before, glyph :: rest =>
      let (first, others) := cutWhere isCut (some glyph) rest
      if isCut before glyph rest.head? then ([], first :: others)
      else (glyph :: first, others)

def trimParts (parts : List Glyph × List (List Glyph)) : Text × List Text :=
  (trim (ofGlyphs parts.1), parts.2.map fun part => trim (ofGlyphs part))

/-- Cuts at every `separator` outside literals; the parts are trimmed. -/
def splitOutside (separator : Char) (text : Text) : Text × List Text :=
  trimParts (cutWhere (fun _ glyph _ => glyph.isBare separator) none (marks text))

/-- A bar outside literals with no other bar next to it. -/
def isPipe (before : Option Glyph) (glyph : Glyph) (next : Option Glyph) : Bool :=
  let isBar := fun neighbour : Option Glyph => neighbour.any fun other => other.char == '|'
  glyph.isBare '|' && !isBar next && !isBar before

def splitPipes (text : Text) : Text × List Text :=
  trimParts (cutWhere isPipe none (marks text))

/-- Cuts in front of the first blank outside literals. -/
def splitAtBlank (text : Text) : Text × Text :=
  let stays := fun glyph : Glyph => glyph.quoted || !isBlank glyph.char
  (ofGlyphs ((marks text).takeWhile stays), ofGlyphs ((marks text).dropWhile stays))

/-- Cuts marked text at the first character `c` outside literals, which belongs to
neither half. -/
def cutAtBare? (c : Char) : List Glyph → Option (List Glyph × List Glyph)
  | [] => none
  | glyph :: rest =>
      if glyph.isBare c then some ([], rest)
      else (cutAtBare? c rest).map fun (front, back) => (glyph :: front, back)

theorem eq_of_cutAtBare? {c : Char} {glyphs front back : List Glyph}
    (h : cutAtBare? c glyphs = some (front, back)) :
    glyphs = front ++ ⟨c, false⟩ :: back ∧ ∀ glyph ∈ front, glyph.isBare c = false := by
  induction glyphs generalizing front with
  | nil => simp [cutAtBare?] at h
  | cons glyph rest ih =>
      by_cases hbare : glyph.isBare c = true
      · simp only [cutAtBare?, hbare, if_true, Option.some.injEq, Prod.mk.injEq] at h
        obtain ⟨rfl, rfl⟩ := h
        rcases glyph with ⟨d, quoted⟩
        simp only [Glyph.isBare, Bool.and_eq_true, Bool.not_eq_true', beq_iff_eq] at hbare
        simp [hbare]
      · simp only [cutAtBare?, hbare] at h
        cases hrest : cutAtBare? c rest with
        | none => simp [hrest] at h
        | some parts =>
            obtain ⟨tail, after⟩ := parts
            simp only [hrest, Option.map_some, Option.some.injEq, Prod.mk.injEq,
              Bool.false_eq_true, if_false] at h
            obtain ⟨rfl, rfl⟩ := h
            obtain ⟨heq, hfront⟩ := ih hrest
            refine ⟨by rw [heq, List.cons_append], ?_⟩
            simpa [hbare] using hfront

/-! ## Pieces -/

/-- A literal with its quotes, or a run of text between literals. -/
inductive Piece
  | bare (run : Text)
  | literal (body : Text)
  deriving DecidableEq, Repr

/-- Reads the rest of a literal up to its closing quote, and what follows it. -/
def takeLiteral (quote : Char) : Text → Text × Text
  | [] => ([], [])
  | ['\\'] => (['\\'], [])
  | '\\' :: c :: text =>
      let (body, rest) := takeLiteral quote text
      ('\\' :: c :: body, rest)
  | c :: text =>
      if c = quote then ([c], text)
      else
        let (body, rest) := takeLiteral quote text
        (c :: body, rest)

theorem takeLiteral_append (quote : Char) (text : Text) :
    (takeLiteral quote text).1 ++ (takeLiteral quote text).2 = text := by
  fun_induction takeLiteral quote text <;> simp_all

theorem takeLiteral_rest_length_le (quote : Char) (text : Text) :
    (takeLiteral quote text).2.length ≤ text.length := by
  have h := congrArg List.length (takeLiteral_append quote text)
  rw [List.length_append] at h
  omega

def pieces : Text → List Piece
  | [] => []
  | c :: text =>
      if isQuote c then
        .literal (c :: (takeLiteral c text).1) :: pieces (takeLiteral c text).2
      else
        .bare (c :: text.takeWhile fun d => !isQuote d) ::
          pieces (text.dropWhile fun d => !isQuote d)
termination_by text => text.length
decreasing_by
  · exact Nat.lt_succ_of_le (takeLiteral_rest_length_le c text)
  · exact Nat.lt_succ_of_le (List.dropWhile_sublist _).length_le

def mapOutside (rewrite : Text → Text) (text : Text) : Text :=
  (pieces text).flatMap fun
    | .bare run => rewrite run
    | .literal body => body

/-! ## Surrounding quotes -/

def stripQuote? (quote : Char) : Text → Option Text
  | [] => none
  | c :: text =>
      if c = quote ∧ text.getLast? = some quote then some text.dropLast else none

/-- The trimmed text, without one pair of equal quotes around it. -/
def stripQuotes (text : Text) : Text :=
  let trimmed := trim text
  ((stripQuote? '\x22' trimmed).or (stripQuote? '\x27' trimmed)).getD trimmed

end TagTemplate.Text
