import TagTemplate.Yaml.Scalar

/-!
# YAML tokens

The signs and leaves of YAML text, and the readers of those that are names: anchors,
aliases, tags and directives.
-/

namespace TagTemplate.Yaml

/-- The signs and leaves of YAML text.  The starts and the end of blocks, and the mark of a
key in front of its text, are not written but follow from the layout of the text. -/
inductive Token
  | version (major minor : Nat)
  | tagHandle (handle : Text)
  | documentStart
  | documentEnd
  | blockSequence
  | blockMapping
  | blockEnd
  | flowSequence
  | flowSequenceEnd
  | flowMapping
  | flowMappingEnd
  | blockEntry
  | flowEntry
  | key
  | value
  | anchor (name : Text)
  | alias (name : Text)
  | tag (handle : Text)
  | scalar (text : Text) (plain : Bool)
  deriving DecidableEq, Repr

def isNameChar (c : Char) : Bool :=
  c.isAlphanum || c == '_' || c == '-'

def Cursor.atGap (cursor : Cursor) : Bool :=
  Yaml.atGap cursor.rest

/-! ## Anchors and aliases -/

def endsName (c : Char) : Bool :=
  c == '?' || c == ':' || c == ',' || c == ']' || c == '\x7d' || c == '%' || c == '@' ||
    c == '\x60'

def readName? (cursor : Cursor) : Option (Text × Cursor) :=
  let name := cursor.takeWhile isNameChar
  let behind := cursor.dropWhile isNameChar
  if name.isEmpty || !(behind.atGap || behind.sees endsName) then none else some (name, behind)

/-! ## Tags -/

def isUriChar (c : Char) : Bool :=
  isNameChar c || ";/?:@&=+$.%!~*()".toList.contains c || c == '\x27'

/-- The characters of tag names that are written out in full. -/
def isFullUriChar (c : Char) : Bool :=
  isUriChar c || c == ',' || c == '[' || c == ']'

def followers? (octet : Nat) : Option Nat :=
  if octet < 0x80 then some 0
  else if 0xc0 ≤ octet ∧ octet < 0xe0 then some 1
  else if 0xe0 ≤ octet ∧ octet < 0xf0 then some 2
  else if 0xf0 ≤ octet ∧ octet < 0xf8 then some 3
  else none

/-- The octets of a character that are still awaited behind another one, if `awaited` of
them were awaited before it. -/
def awaitedAfter? (awaited octet : Nat) : Option Nat :=
  match awaited with
  | 0 => followers? octet
  | awaited + 1 => if 0x80 ≤ octet ∧ octet < 0xc0 then some awaited else none

/-- Every percent sign is followed by the two hexadecimal digits of an octet, and the octets
make up whole characters, the first of which awaits `awaited` octets yet. -/
def hasWholeEscapes (awaited : Nat) : Text → Bool
  | '%' :: a :: b :: text =>
      ((Text.hexValue? [a, b]).bind (awaitedAfter? awaited)).any fun left =>
        hasWholeEscapes left text
  | c :: text => awaited == 0 && c != '%' && hasWholeEscapes 0 text
  | [] => awaited == 0

/-- Reads characters of a class; there have to be some, unless something of the name stands
in front of them already. -/
def readUri? (class? : Char → Bool) (mayBeEmpty : Bool) (cursor : Cursor) : Option Cursor :=
  let uri := cursor.takeWhile class?
  if (uri.isEmpty && !mayBeEmpty) || !hasWholeEscapes 0 uri then none
  else some (cursor.dropWhile class?)

/-- Reads the handle of a tag: an exclamation mark, a name that may be empty, and perhaps
another exclamation mark. -/
def readHandle? (cursor : Cursor) : Option (Text × Cursor) :=
  if cursor.sees (· == '!') then
    let name := cursor.next.takeWhile isNameChar
    let behind := cursor.next.dropWhile isNameChar
    if behind.sees (· == '!') then some ('!' :: name ++ ['!'], behind.next)
    else some ('!' :: name, behind)
  else none

/-- Reads a tag without a look at what follows it: its handle, which is empty for a tag
that is written out in full. -/
def readTagName? (cursor : Cursor) : Option (Text × Cursor) :=
  if cursor.next.sees (· == '<') then
    (readUri? isFullUriChar false cursor.next.next).bind fun behind =>
      if behind.sees (· == '>') then some ([], behind.next) else none
  else
    (readHandle? cursor).bind fun (handle, behind) =>
      if 2 ≤ handle.length ∧ handle.getLast? = some '!' then
        (readUri? isUriChar false behind).map fun last => (handle, last)
      else (readUri? isUriChar true behind).map fun last => (['!'], last)

/-- Reads a tag, which ends at a gap or, inside brackets, at a comma. -/
def readTag? (inFlow : Bool) (cursor : Cursor) : Option (Text × Cursor) :=
  (readTagName? cursor).bind fun (handle, behind) =>
    if behind.atGap || (inFlow && behind.sees (· == ',')) then some (handle, behind) else none

/-! ## Directives -/

def readNumber? (cursor : Cursor) : Option (Nat × Cursor) :=
  let digits := cursor.takeWhile Char.isDigit
  if digits.isEmpty || 9 < digits.length then none
  else
    some (digits.foldl (fun value c => 10 * value + (c.toNat - '0'.toNat)) 0,
      cursor.dropWhile Char.isDigit)

def readVersion? (cursor : Cursor) : Option (Token × Cursor) :=
  (readNumber? (cursor.dropWhile isSpace)).bind fun (major, behind) =>
    if behind.sees (· == '.') then
      (readNumber? behind.next).map fun (minor, last) => (.version major minor, last)
    else none

def readTagHandle? (cursor : Cursor) : Option (Token × Cursor) :=
  (readHandle? (cursor.dropWhile isSpace)).bind fun (handle, behind) =>
    if handle.getLast? = some '!' ∧ behind.sees isSpace then
      (readUri? isFullUriChar false (behind.dropWhile isSpace)).bind fun last =>
        if last.atGap then some (.tagHandle handle, last) else none
    else none

/-- Reads a directive from behind its percent sign, up to the end of the line. -/
def readDirective? (cursor : Cursor) : Option (Token × Cursor) :=
  let name := cursor.takeWhile isNameChar
  let behind := cursor.dropWhile isNameChar
  let directive? :=
    if !behind.atGap then none
    else if name = "YAML".toList then readVersion? behind
    else if name = "TAG".toList then readTagHandle? behind
    else none
  directive?.bind fun (token, behind) => (endLine? behind).map fun last => (token, last)

end TagTemplate.Yaml
