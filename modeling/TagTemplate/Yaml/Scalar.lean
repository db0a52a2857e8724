import TagTemplate.Yaml.Cursor

/-!
# YAML scalars

The four ways to write a text in YAML: plain, in single quotes, in double quotes, and as a
block of lines.  Each reader gives the text that was written and the cursor behind it.
Gaps with line breaks in them are folded: one break is a space, and more breaks are one
break less.
-/

namespace TagTemplate.Yaml

/-! ## Gaps -/

/-- Spaces and line breaks between two characters of a scalar. -/
inductive Gap
  /-- No line ends; the spaces stand for themselves. -/
  | inline (spaces : Text)
  /-- Lines end; `first` is the first break, or nothing if that break was escaped. -/
  | lines (first more : Text)
  deriving DecidableEq, Repr

namespace Gap

def none : Gap :=
  inline []

def isLines : Gap → Bool
  | inline _ => false
  | lines _ _ => true

/-- The gap with one more space or tab, which does not count at the start of a line. -/
def addSpace (c : Char) : Gap → Gap
  | inline spaces => inline (spaces ++ [c])
  | lines first more => lines first more

/-- The gap with one more line break; the spaces before a break do not count. -/
def addBreak (c : Char) : Gap → Gap
  | inline _ => lines [c] []
  | lines first more => lines first (more ++ [c])

def fold : Gap → Text
  | inline spaces => spaces
  | lines first more =>
      if first = ['\n'] then (if more.isEmpty then [' '] else more) else first ++ more

end Gap

/-! ## Plain scalars -/

def isFlowSign (c : Char) : Bool :=
  c == ',' || c == '[' || c == ']' || c == '\x7b' || c == '\x7d'

/-- What a reader of plain scalars gives: the text, whether the cursor is on a later line
than the end of the text, and the cursor. -/
structure PlainScalar where
  text : Text
  newLine : Bool
  cursor : Cursor

/-- Reads a plain scalar, behind a gap.  In a block it goes on while its lines are
indented by `indent` columns at least; inside brackets the signs of the brackets end it.
It ends before a comment, at a mark between documents, and before a colon that makes it
a key. -/
def readPlain? (inFlow : Bool) (indent : Nat) (gap : Gap) :
    Text → Nat → Nat → Option PlainScalar
  | [], line, column => some ⟨[], gap.isLines, ⟨[], line, column⟩⟩
  | c :: rest, line, column =>
      let here : PlainScalar := ⟨[], gap.isLines, ⟨c :: rest, line, column⟩⟩
      if isSpace c then
        if gap.isLines && column < indent && c == '\t' then none
        else readPlain? inFlow indent (gap.addSpace c) rest line (column + 1)
      else if isBreak c then readPlain? inFlow indent (gap.addBreak c) rest (line + 1) 0
      else if gap ≠ .none && ((!inFlow && column < indent) ||
          (column == 0 && atDocumentMark (c :: rest)) || c == '#') then some here
      else if inFlow && c == ':' &&
          rest.head?.any (fun d => isFlowSign d || d == '?') then none
      else if (c == ':' && atGap rest) || (inFlow && isFlowSign c) then some here
      else
        (readPlain? inFlow indent .none rest line (column + 1)).map fun scalar =>
          { scalar with text := gap.fold ++ c :: scalar.text }

/-! ## Quoted scalars -/

/-- Reads a scalar in single quotes from behind the opening quote; a quote inside is
written twice. -/
def readSingleQuoted? (gap : Gap) : Text → Nat → Nat → Option (Text × Cursor)
  | [], _, _ => none
  | c :: rest, line, column =>
      if column == 0 && atDocumentMark (c :: rest) then none
      else if isSpace c then readSingleQuoted? (gap.addSpace c) rest line (column + 1)
      else if isBreak c then readSingleQuoted? (gap.addBreak c) rest (line + 1) 0
      else if c = '\x27' then
        match rest with
        | '\x27' :: rest =>
            (readSingleQuoted? .none rest line (column + 2)).map fun (text, cursor) =>
              (gap.fold ++ '\x27' :: text, cursor)
        | _ => some (gap.fold, ⟨rest, line, column + 1⟩)
      else
        (readSingleQuoted? .none rest line (column + 1)).map fun (text, cursor) =>
          (gap.fold ++ c :: text, cursor)

def shortEscape? : Char → Option Char
  | '0' => some '\x00'
  | 'a' => some '\x07'
  | 'b' => some '\x08'
  | 't' => some '\t'
  | '\t' => some '\t'
  | 'n' => some '\n'
  | 'v' => some '\x0b'
  | 'f' => some '\x0c'
  | 'r' => some '\r'
  | 'e' => some '\x1b'
  | ' ' => some ' '
  | '\x22' => some '\x22'
  | '/' => some '/'
  | '\\' => some '\\'
  | 'N' => some '\u0085'
  | '_' => some '\u00a0'
  | 'L' => some '\u2028'
  | 'P' => some '\u2029'
  | _ => none

def escapeDigits? : Char → Option Nat
  | 'x' => some 2
  | 'u' => some 4
  | 'U' => some 8
  | _ => none

def longEscape? (digits : Text) : Option Char :=
  (Text.hexValue? digits).bind Text.ofCode?

/-- Reads an escape from behind the backslash: the character and the number of characters
that the escape has. -/
def readEscape? : Text → Option (Char × Nat)
  | [] => none
  | c :: rest =>
      match escapeDigits? c with
      | none => (shortEscape? c).map fun d => (d, 1)
      | some count =>
          if rest.length < count then none
          else (longEscape? (rest.take count)).map fun d => (d, count + 1)

/-- Reads a scalar in double quotes from behind the opening quote.  The first `skip`
characters belong to an escape that was read already. -/
def readDoubleQuoted? : Nat → Gap → Text → Nat → Nat → Option (Text × Cursor)
  | _, _, [], _, _ => none
  | skip + 1, gap, _ :: rest, line, column => readDoubleQuoted? skip gap rest line (column + 1)
  | 0, gap, c :: rest, line, column =>
      if column == 0 && atDocumentMark (c :: rest) then none
      else if isSpace c then readDoubleQuoted? 0 (gap.addSpace c) rest line (column + 1)
      else if isBreak c then readDoubleQuoted? 0 (gap.addBreak c) rest (line + 1) 0
      else if c = '\x22' then some (gap.fold, ⟨rest, line, column + 1⟩)
      else if c = '\\' then
        match rest with
        | [] => none
        | d :: behind =>
            if isBreak d then
              (readDoubleQuoted? 0 (.lines [] []) behind (line + 1) 0).map fun (text, cursor) =>
                (gap.fold ++ text, cursor)
            else
              match readEscape? (d :: behind) with
              | none => none
              | some (e, length) =>
                  (readDoubleQuoted? (length - 1) .none behind line (column + 2)).map
                    fun (text, cursor) => (gap.fold ++ e :: text, cursor)
      else
        (readDoubleQuoted? 0 .none rest line (column + 1)).map fun (text, cursor) =>
          (gap.fold ++ c :: text, cursor)

/-! ## Block scalars -/

inductive Chomping
  | strip
  | clip
  | keep
  deriving DecidableEq, Repr

/-- The head of a block scalar: how it is chomped, and the indentation of its lines if
that is given. -/
structure BlockHead where
  chomping : Chomping
  indent : Option Nat
  deriving DecidableEq, Repr

def chomping? : Char → Option Chomping
  | '+' => some .keep
  | '-' => some .strip
  | _ => none

def indentDigit? (c : Char) : Option Nat :=
  if c.isDigit && c != '0' then some (c.toNat - '0'.toNat) else none

/-- Reads the signs behind `|` or `>`, in either order, each once at most.  A zero is no
sign and is left to be refused. -/
def readBlockSigns (cursor : Cursor) : BlockHead × Cursor :=
  match cursor.head?.bind chomping? with
  | some chomping =>
      match cursor.next.head?.bind indentDigit? with
      | some indent => (⟨chomping, some indent⟩, cursor.next.next)
      | none => (⟨chomping, none⟩, cursor.next)
  | none =>
      match cursor.head?.bind indentDigit? with
      | none => (⟨.clip, none⟩, cursor)
      | some indent =>
          match cursor.next.head?.bind chomping? with
          | some chomping => (⟨chomping, some indent⟩, cursor.next.next)
          | none => (⟨.clip, some indent⟩, cursor.next)

/-- The cursor behind spaces, a comment and the end of the line, if there is nothing else
on the line. -/
def endLine? (cursor : Cursor) : Option Cursor :=
  let behind := cursor.dropWhile isSpace
  let atEnd := if behind.sees (· == '#') then behind.dropWhile (!isBreak ·) else behind
  if atEnd.rest.isEmpty || atEnd.sees isBreak then some atEnd.next else none

/-- The empty lines in front of a line of a block: their breaks, the widest indentation
among them and the line behind them, and the cursor behind the indentation. -/
structure BlockGap where
  breaks : Text
  widest : Nat
  cursor : Cursor

/-- Reads indentation and empty lines.  With no known indentation all spaces are taken; a
tab may not stand where indentation is looked for. -/
def readBlockGap? (indent : Option Nat) (widest : Nat) : Text → Nat → Nat → Option BlockGap
  | [], line, column => some ⟨[], max widest column, ⟨[], line, column⟩⟩
  | c :: rest, line, column =>
      let inIndent := indent.all fun known => column < known
      if inIndent && c == ' ' then readBlockGap? indent widest rest line (column + 1)
      else if inIndent && c == '\t' then none
      else if isBreak c then
        (readBlockGap? indent (max widest column) rest (line + 1) 0).map fun gap =>
          { gap with breaks := c :: gap.breaks }
      else some ⟨[], max widest column, ⟨c :: rest, line, column⟩⟩

theorem length_of_readBlockGap? {indent : Option Nat} {widest line column : Nat} {text : Text}
    {gap : BlockGap} (h : readBlockGap? indent widest text line column = some gap) :
    gap.cursor.rest.length ≤ text.length := by
  induction text generalizing widest line column gap with
  | nil =>
      cases h
      exact Nat.le_refl _
  | cons c rest ih =>
      simp only [readBlockGap?] at h
      split at h
      · exact Nat.le_succ_of_le (ih h)
      · split at h
        · cases h
        · split at h
          · obtain ⟨inner, hinner, heq⟩ := Option.map_eq_some_iff.1 h
            have hcursor : gap.cursor = inner.cursor := by rw [← heq]
            rw [hcursor]
            exact Nat.le_succ_of_le (ih hinner)
          · cases h
            exact Nat.le_refl _

def readLineEnd? (indent : Nat) (text : Text) (line column : Nat) : Option BlockGap :=
  match text with
  | [] => some ⟨[], 0, ⟨[], line, column⟩⟩
  | _ :: below => readBlockGap? (some indent) 0 below (line + 1) 0

theorem length_of_readLineEnd? {indent line column : Nat} {text : Text} {gap : BlockGap}
    (h : readLineEnd? indent text line column = some gap) :
    gap.cursor.rest.length ≤ text.length := by
  unfold readLineEnd? at h
  split at h
  · cases h
    exact Nat.le_refl _
  · exact Nat.le_succ_of_le (length_of_readBlockGap? h)

/-- The lines of a block that were read: their text without the last break, the last break,
and the breaks of the empty lines behind it. -/
structure BlockLines where
  text : Text
  lastBreak : Text
  breaks : Text
  cursor : Cursor

/-- Joins a line of a block to the text before it: `lastBreak` ended that text, `breaks` are
those of the empty lines between.  In a folded block a single break between two lines that
do not start with a space is a space, and of several such breaks the first is dropped. -/
def joinLines (folded startsWithSpace : Bool) (lastBreak breaks : Text) : Text :=
  if folded && !startsWithSpace && lastBreak == ['\n'] then
    if breaks.isEmpty then [' '] else breaks
  else lastBreak ++ breaks

/-- Reads the lines of a block that are indented by `indent` columns.  `spaced` says that
the line before started with a space. -/
def readBlockLines? (folded : Bool) (indent : Nat) (spaced : Bool) (lastBreak breaks : Text)
    (cursor : Cursor) : Option BlockLines :=
  match hrest : cursor.rest with
  | [] => some ⟨[], lastBreak, breaks, cursor⟩
  | c :: rest =>
      if cursor.column ≠ indent then some ⟨[], lastBreak, breaks, cursor⟩
      else
        let content := c :: rest.takeWhile (!isBreak ·)
        let behind := rest.dropWhile (!isBreak ·)
        match hend : readLineEnd? indent behind cursor.line (cursor.column + content.length) with
        | none => none
        | some gap =>
            have : gap.cursor.rest.length < cursor.rest.length := by
              have hgap := length_of_readLineEnd? hend
              have hbehind : behind.length ≤ rest.length :=
                (List.dropWhile_sublist _).length_le
              rw [hrest, List.length_cons]
              omega
            let lines? :=
              readBlockLines? folded indent (isSpace c) (behind.take 1) gap.breaks gap.cursor
            lines?.map fun lines =>
              let join := joinLines folded (spaced || isSpace c) lastBreak breaks
              { lines with text := join ++ content ++ lines.text }
termination_by cursor.rest.length

/-- Reads a block scalar from behind `|` or `>`.  `parent` is the indentation of the block
that the scalar stands in, if it stands in one. -/
def readBlock? (folded : Bool) (parent : Option Nat) (cursor : Cursor) :
    Option (Text × Cursor) :=
  let (head, behind) := readBlockSigns cursor
  (endLine? behind).bind fun start =>
    let given := head.indent.map fun indent => parent.getD 0 + indent
    (readBlockGap? given 0 start.rest start.line start.column).bind fun gap =>
      let least := (parent.map (· + 1)).getD 1
      let indent := given.getD (max gap.widest least)
      (readBlockLines? folded indent false [] gap.breaks gap.cursor).map fun lines =>
        let tail : Text :=
          match head.chomping with
          | .strip => []
          | .clip => lines.lastBreak
          | .keep => lines.lastBreak ++ lines.breaks
        (lines.text ++ tail, lines.cursor)

end TagTemplate.Yaml
