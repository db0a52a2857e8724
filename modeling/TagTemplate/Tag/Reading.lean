import TagTemplate.Tag.Fragment

/-!
# Readings of tag bodies

A tag body is read as a kind and an expression.  A keyword at its start decides, and
the other words are the expression; `else if` reads as `elseif`.  A body without a
keyword is read by its shape: a body of plain path characters is put out (`break` by
itself leaves a loop), a slash at the start ends a block, an equals sign makes a
calculation, and anything else is put out.
-/

namespace TagTemplate

/-- What a tag body says: its kind, and its expression without sigils. -/
structure Reading where
  kind : Kind
  expression : Text
  deriving DecidableEq, Repr

namespace Reading

/-- The characters of bodies that are put out whatever else they look like. -/
def isPlainChar (c : Char) : Bool :=
  c.isAlphanum || c == '$' || c == '.' || c == '|' || c == '(' || c == ')'

/-- Reads a body that a keyword introduces from the words after the keyword. -/
def ofKeyword (kind : Kind) (rest : List Text) : Kind × Text :=
  match rest with
  | word :: condition =>
      if kind = .elseTag ∧ word = Kind.ifTag.name then (.elseIfTag, Text.ofWords condition)
      else (kind, Text.ofWords rest)
  | [] => (kind, [])

def ofShape (body : Text) : Kind × Text :=
  if !body.isEmpty && body.all isPlainChar then
    (if body = Kind.breakTag.name then .breakTag else .printTag, body)
  else if body.head? = some '/' then (.endTag, "\x7d".toList)
  else if body.contains '=' then (.calcTag, body)
  else (.printTag, body)

/-- Reads a body up to the normalization of sigils. -/
def raw (body : Text) : Kind × Text :=
  match Text.words body with
  | [] => ofShape []
  | first :: rest =>
      match Kind.ofKeyword? first with
      | some kind => ofKeyword kind rest
      | none => ofShape (Text.trim body)

def ofBody (metaMark body : Text) : Reading :=
  let (kind, expression) := raw body
  ⟨kind, Sigil.normalize metaMark expression⟩

def fragment (metaMark : Text) (reading : Reading) : Text :=
  reading.kind.fragment metaMark reading.expression

end Reading

end TagTemplate
