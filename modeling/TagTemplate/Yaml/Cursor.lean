import TagTemplate.Text.Basic

/-!
# Cursors in YAML text

A cursor is what is left of a text, with the line and the column at which it starts.  All
ways to end a line that YAML folds into one are one character here, the line feed; the two
Unicode separators of lines and paragraphs end lines as well and stay what they are.
-/

namespace TagTemplate.Yaml

def isPrintable (c : Char) : Bool :=
  let n := c.toNat
  n == 0x9 || n == 0xa || n == 0xd || (0x20 ≤ n && n ≤ 0x7e) || n == 0x85 ||
    (0xa0 ≤ n && n ≤ 0xd7ff) || (0xe000 ≤ n && n ≤ 0xfffd) || 0x10000 ≤ n

def isBreak (c : Char) : Bool :=
  c == '\n' || c == '\u2028' || c == '\u2029'

def isSpace (c : Char) : Bool :=
  c == ' ' || c == '\t'

/-- Spells every carriage return with a line feed behind it, every other carriage return,
and every next-line character as a line feed. -/
def unifyBreaks : Text → Text
  | [] => []
  | '\r' :: '\n' :: text => '\n' :: unifyBreaks text
  | c :: text => (if c = '\r' ∨ c = '\u0085' then '\n' else c) :: unifyBreaks text

/-- What is left of a text, and where it starts; lines and columns count from zero. -/
structure Cursor where
  rest : Text
  line : Nat
  column : Nat
  deriving DecidableEq, Repr

namespace Cursor

def after (c : Char) (rest : Text) (line column : Nat) : Cursor :=
  if isBreak c then ⟨rest, line + 1, 0⟩ else ⟨rest, line, column + 1⟩

def next (cursor : Cursor) : Cursor :=
  match cursor.rest with
  | [] => cursor
  | c :: rest => after c rest cursor.line cursor.column

def drop : Nat → Cursor → Cursor
  | 0, cursor => cursor
  | count + 1, cursor => drop count cursor.next

def takeWhile (class? : Char → Bool) (cursor : Cursor) : Text :=
  cursor.rest.takeWhile class?

def dropWhile (class? : Char → Bool) (cursor : Cursor) : Cursor :=
  drop (cursor.takeWhile class?).length cursor

def head? (cursor : Cursor) : Option Char :=
  cursor.rest.head?

def sees (class? : Char → Bool) (cursor : Cursor) : Bool :=
  cursor.head?.any class?

end Cursor

/-- The text is at its end or goes on with a space, a tab or a line break. -/
def atGap : Text → Bool
  | [] => true
  | c :: _ => isSpace c || isBreak c

/-- A text that starts a line begins with one of the marks between documents. -/
def atDocumentMark (text : Text) : Bool :=
  ((Text.after? "---".toList text).or (Text.after? "...".toList text)).any atGap

def Cursor.atMark (cursor : Cursor) : Bool :=
  cursor.column == 0 && atDocumentMark cursor.rest

end TagTemplate.Yaml
