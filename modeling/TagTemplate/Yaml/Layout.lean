import TagTemplate.Yaml.Token

/-!
# Layout of YAML text

The tokens of a text.  Blocks are told by indentation: a block starts where a first entry or
key stands further right than the block around it, and ends before the first token that
stands further left.  That a token is a key shows only at the colon behind it, so tokens
that may turn out to be keys are kept in mind, and the mark of the key and the start of its
mapping are put in front of them later.
-/

namespace TagTemplate.Yaml

/-- A token that may be a key: its place among the tokens, where it stands, and whether it
has to be a key because nothing else may stand there. -/
structure PossibleKey where
  place : Nat
  line : Nat
  column : Nat
  needed : Bool
  deriving DecidableEq, Repr

structure Layout where
  cursor : Cursor
  /-- The tokens so far, the last one first. -/
  tokens : List Token
  /-- The columns of the open blocks, the inner ones first. -/
  indents : List Nat
  keyAllowed : Bool
  blockKey : Option PossibleKey
  /-- The possible keys inside the open brackets, the inner brackets first. -/
  flowKeys : List (Option PossibleKey)

namespace Layout

def inFlow (layout : Layout) : Bool :=
  !layout.flowKeys.isEmpty

def insert (place : Nat) (token : Token) (layout : Layout) : Layout :=
  let (later, earlier) := layout.tokens.splitAt (layout.tokens.length - place)
  { layout with tokens := later ++ token :: earlier }

def possibleKey (layout : Layout) : Option PossibleKey :=
  match layout.flowKeys with
  | [] => layout.blockKey
  | key :: _ => key

def withKey (key : Option PossibleKey) (layout : Layout) : Layout :=
  match layout.flowKeys with
  | [] => { layout with blockKey := key }
  | _ :: keys => { layout with flowKeys := key :: keys }

/-- Forgets the possible key, unless it has to be a key. -/
def forgetKey? (layout : Layout) : Option Layout :=
  if layout.possibleKey.any PossibleKey.needed then none else some (layout.withKey none)

/-- Keeps the next token in mind as a possible key, if a key may stand here.  At the column
of a block of the same indentation it has to be one. -/
def rememberKey? (layout : Layout) : Option Layout :=
  if layout.keyAllowed then
    layout.forgetKey?.map fun layout =>
      layout.withKey (some {
        place := layout.tokens.length
        line := layout.cursor.line
        column := layout.cursor.column
        needed := !layout.inFlow && layout.indents.head? == some layout.cursor.column })
  else some layout

/-- A possible key and the colon behind it stand on one line, and not too far apart. -/
def reaches (cursor : Cursor) (key : PossibleKey) : Bool :=
  key.line == cursor.line && cursor.column ≤ key.column + 1024

/-- Starts a block at a column that is further right than the block around it. -/
def indentTo (column : Nat) (place : Nat) (start : Token) (layout : Layout) : Layout :=
  if !layout.inFlow && layout.indents.head?.all (· < column) then
    { layout.insert place start with indents := column :: layout.indents }
  else layout

/-- Ends the blocks whose columns are in a class, from the inside. -/
def endBlocks (ends : Nat → Bool) (layout : Layout) : Layout :=
  if layout.inFlow then layout
  else
    let ended := layout.indents.takeWhile ends
    { layout with
      tokens := List.replicate ended.length Token.blockEnd ++ layout.tokens
      indents := layout.indents.dropWhile ends }

/-- Goes to the start of the next token, over spaces, line breaks and comments.  Tabs are
passed over where no key may stand.  Behind a line break a key may stand, unless brackets
are open.  A line may start with a byte order mark, which takes up a column. -/
def toToken (inFlow : Bool) (keyAllowed inComment : Bool) : Text → Nat → Nat → Cursor × Bool
  | [], line, column => (⟨[], line, column⟩, keyAllowed)
  | c :: rest, line, column =>
      if isBreak c then toToken inFlow (keyAllowed || !inFlow) false rest (line + 1) 0
      else if column == 0 && c == '\ufeff' then
        toToken inFlow keyAllowed inComment rest line (column + 1)
      else if inComment || c == ' ' || (c == '\t' && (inFlow || !keyAllowed)) then
        toToken inFlow keyAllowed inComment rest line (column + 1)
      else if c == '#' then toToken inFlow keyAllowed true rest line (column + 1)
      else (⟨c :: rest, line, column⟩, keyAllowed)

def advance (layout : Layout) : Layout :=
  let cursor := layout.cursor
  let (cursor, keyAllowed) :=
    toToken layout.inFlow layout.keyAllowed false cursor.rest cursor.line cursor.column
  endBlocks (cursor.column < ·) { layout with cursor := cursor, keyAllowed := keyAllowed }

/-! ## Single tokens -/

def pushAt (token : Token) (cursor : Cursor) (keyAllowed : Bool) (layout : Layout) : Layout :=
  { layout with
    cursor := cursor
    tokens := token :: layout.tokens
    keyAllowed := keyAllowed }

def takeMark? (token : Token) (layout : Layout) : Option Layout :=
  (endBlocks (fun _ => true) layout).forgetKey?.map fun layout =>
    layout.pushAt token (layout.cursor.drop 3) false

def takeDirective? (layout : Layout) : Option Layout :=
  (endBlocks (fun _ => true) layout).forgetKey?.bind fun layout =>
    (readDirective? layout.cursor.next).map fun (token, behind) => layout.pushAt token behind false

def takeOpening? (token : Token) (layout : Layout) : Option Layout :=
  layout.rememberKey?.map fun layout =>
    { layout.pushAt token layout.cursor.next true with flowKeys := none :: layout.flowKeys }

def takeClosing? (token : Token) (layout : Layout) : Option Layout :=
  layout.forgetKey?.map fun layout =>
    { layout.pushAt token layout.cursor.next false with flowKeys := layout.flowKeys.tail }

def takeComma? (layout : Layout) : Option Layout :=
  layout.forgetKey?.map fun layout => layout.pushAt .flowEntry layout.cursor.next true

def takeSign? (start token : Token) (allowsKey : Bool) (layout : Layout) : Option Layout :=
  if !layout.inFlow && !layout.keyAllowed then none
  else
    (layout.indentTo layout.cursor.column layout.tokens.length start).forgetKey?.map
      fun layout => layout.pushAt token layout.cursor.next allowsKey

/-- The colon behind a key.  If the token before it may be a key, it is one; if not, the key
was written with a question mark, or is empty. -/
def takeColon? (layout : Layout) : Option Layout :=
  match layout.possibleKey.filter (reaches layout.cursor) with
  | some key =>
      let marked := ((layout.insert key.place .key).indentTo key.column key.place
        .blockMapping).withKey none
      some (marked.pushAt .value layout.cursor.next false)
  | none =>
      if layout.possibleKey.any PossibleKey.needed then none
      else if layout.inFlow then some (layout.pushAt .value layout.cursor.next false)
      else if !layout.keyAllowed then none
      else
        let marked :=
          layout.indentTo layout.cursor.column layout.tokens.length .blockMapping
        some (marked.pushAt .value layout.cursor.next true)

/-- An anchor or an alias. -/
def takeName? (token : Text → Token) (layout : Layout) : Option Layout :=
  layout.rememberKey?.bind fun layout =>
    (readName? layout.cursor.next).map fun (name, behind) =>
      layout.pushAt (token name) behind false

def takeTag? (layout : Layout) : Option Layout :=
  layout.rememberKey?.bind fun layout =>
    (readTag? layout.inFlow layout.cursor).map fun (handle, behind) =>
      layout.pushAt (.tag handle) behind false

def takeQuoted? (read : Text → Nat → Nat → Option (Text × Cursor)) (layout : Layout) :
    Option Layout :=
  layout.rememberKey?.bind fun layout =>
    let start := layout.cursor.next
    (read start.rest start.line start.column).map fun (text, behind) =>
      layout.pushAt (.scalar text false) behind false

def takeBlock? (folded : Bool) (layout : Layout) : Option Layout :=
  layout.forgetKey?.bind fun layout =>
    (readBlock? folded layout.indents.head? layout.cursor.next).map fun (text, behind) =>
      layout.pushAt (.scalar text false) behind true

/-- A plain scalar.  Behind one that ended on an earlier line a key may stand. -/
def takePlain? (layout : Layout) : Option Layout :=
  layout.rememberKey?.bind fun layout =>
    let indent := (layout.indents.head?.map (· + 1)).getD 0
    let start := layout.cursor
    (readPlain? layout.inFlow indent .none start.rest start.line start.column).map fun scalar =>
      layout.pushAt (.scalar scalar.text true) scalar.cursor scalar.newLine

def isIndicator (c : Char) : Bool :=
  "-?:,[]#&*!|>%@".toList.contains c || c == '\x7b' || c == '\x7d' || c == '\x27' ||
    c == '\x22' || c == '\x60'

/-- A plain scalar starts with a character that is no sign, or with a dash, question mark or
colon that is followed by no gap. -/
def startsPlain (inFlow : Bool) (c : Char) (rest : Text) : Bool :=
  (!isSpace c && !isIndicator c) || (c == '-' && !rest.head?.any isSpace) ||
    (!inFlow && (c == '?' || c == ':') && !atGap rest)

def takeToken? (c : Char) (rest : Text) (layout : Layout) : Option Layout :=
  let inFlow := layout.inFlow
  if layout.cursor.column == 0 && c == '%' then layout.takeDirective?
  else if layout.cursor.atMark then
    layout.takeMark? (if c == '-' then .documentStart else .documentEnd)
  else if c == '[' then layout.takeOpening? .flowSequence
  else if c == '\x7b' then layout.takeOpening? .flowMapping
  else if c == ']' then layout.takeClosing? .flowSequenceEnd
  else if c == '\x7d' then layout.takeClosing? .flowMappingEnd
  else if c == ',' then layout.takeComma?
  else if c == '-' && atGap rest then layout.takeSign? .blockSequence .blockEntry true
  else if c == '?' && (inFlow || atGap rest) then
    layout.takeSign? .blockMapping .key (!inFlow)
  else if c == ':' && (inFlow || atGap rest) then layout.takeColon?
  else if c == '*' then layout.takeName? .alias
  else if c == '&' then layout.takeName? .anchor
  else if c == '!' then layout.takeTag?
  else if c == '|' && !inFlow then layout.takeBlock? false
  else if c == '>' && !inFlow then layout.takeBlock? true
  else if c == '\x27' then layout.takeQuoted? (readSingleQuoted? .none)
  else if c == '\x22' then layout.takeQuoted? (readDoubleQuoted? 0 .none)
  else if startsPlain inFlow c rest then layout.takePlain?
  else none

def start (text : Text) : Layout :=
  ⟨⟨text, 0, 0⟩, [], [], true, none, []⟩

/-- Reads tokens up to the end of the text.  A token takes a character at least. -/
def takeAll? (layout : Layout) : Option Layout :=
  let here := layout.advance
  match here.cursor.rest with
  | [] => (endBlocks (fun _ => true) here).forgetKey?
  | c :: rest =>
      (here.takeToken? c rest).bind fun next =>
        if next.cursor.rest.length < layout.cursor.rest.length then takeAll? next else none
termination_by layout.cursor.rest.length

end Layout

def tokens? (text : Text) : Option (List Token) :=
  if text.all isPrintable then
    (Layout.start (unifyBreaks text)).takeAll?.map fun layout => layout.tokens.reverse
  else none

end TagTemplate.Yaml
