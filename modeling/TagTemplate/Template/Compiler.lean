import TagTemplate.Config.Basic
import TagTemplate.Tag.Reading
import TagTemplate.Template.Segments
import TagTemplate.Template.StripBlock

/-!
# Compilers

A compiler turns templates with tags into templates with target code.  It takes the tags
of strip blocks away, cuts what is left at its tags, and puts the code of each tag between
the target delimiters; literal text is copied.  Where code and a target delimiter would
make a source delimiter between them, a space keeps them apart.
-/

namespace TagTemplate

/-- A configuration that is known to be usable. -/
structure Compiler where
  config : Config
  valid : config.Valid

namespace Compiler

def ofConfig (config : Config) : Except Error Compiler :=
  match h : config.fault? with
  | none => .ok ⟨config, h⟩
  | some fault => .error (.invalidConfig fault)

def standard : Compiler :=
  ⟨Config.standard, Config.standard_valid⟩

def sourceDelimiters (compiler : Compiler) : Delimiters where
  opening := compiler.config.sourceOpen
  closing := compiler.config.sourceClose
  opening_ne_nil := ((Config.valid_iff _).1 compiler.valid).1
  closing_ne_nil := ((Config.valid_iff _).1 compiler.valid).2.1

/-- The text without the tags of its strip blocks. -/
def stripBlocks (compiler : Compiler) (source : Text) : Text :=
  StripBlock.unwrap compiler.sourceDelimiters source

def scan (compiler : Compiler) (source : Text) : Segments :=
  Segments.ofText compiler.sourceDelimiters source

def classify (compiler : Compiler) (body : Text) : Reading :=
  Reading.ofBody compiler.config.metaMark body

/-- The code of a tag body, without delimiters. -/
def compileTag (compiler : Compiler) (body : Text) : Text :=
  (compiler.classify body).fragment compiler.config.metaMark

/-- Counts the places of a token in a text that begin behind the first `skip`
characters and do not overlap, from left to right. -/
def countFrom (token : Text) : Nat → Text → Nat
  | _, [] => 0
  | skip + 1, _ :: text => countFrom token skip text
  | 0, c :: text =>
      if (Text.after? token (c :: text)).isSome then 1 + countFrom token (token.length - 1) text
      else countFrom token 0 text

/-- Counts the source delimiters in a text, opening and closing ones apart. -/
def countDelimiters (config : Config) (text : Text) : Nat :=
  countFrom config.sourceOpen 0 text + countFrom config.sourceClose 0 text

/-- Puts code between the target delimiters.  A space is put at an end where code and
delimiter together have more source delimiters than the code. -/
def wrap (config : Config) (code : Text) : Text :=
  let inner := countDelimiters config code
  let front := if countDelimiters config (config.targetOpen ++ code) > inner then [' '] else []
  let back := if countDelimiters config (code ++ config.targetClose) > inner then [' '] else []
  config.targetOpen ++ front ++ code ++ back ++ config.targetClose

def wrapTag (compiler : Compiler) (tag : Tag) : Text :=
  wrap compiler.config (compiler.compileTag tag.body)

def compile (compiler : Compiler) (source : Text) : Text :=
  (compiler.scan (compiler.stripBlocks source)).splice compiler.wrapTag

/-- The texts that compiling a template time and again gives, the template apart. -/
def recompile (compiler : Compiler) : Nat → Text → List Text
  | 0, _ => []
  | times + 1, source =>
      let compiled := compiler.compile source
      compiled :: recompile compiler times compiled

end Compiler

end TagTemplate
