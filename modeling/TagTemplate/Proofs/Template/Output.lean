import TagTemplate.Proofs.Template.Scan
import TagTemplate.Proofs.Text.Trim
import TagTemplate.Template.Compiler

/-!
# The shape of compiled templates

A compiled template is the literal text of the template with a chunk of target code in
place of each tag: the code of the tag between the target delimiters, with at most one
space at either end.
-/

namespace TagTemplate.Compiler

open Text

theorem opening_standard : standard.sourceDelimiters.opening = ['\x7b', '%'] := rfl

theorem closing_standard : standard.sourceDelimiters.closing = ['%', '\x7d'] := rfl

theorem startsSolid_standard : StartsSolid standard.sourceDelimiters.closing :=
  ⟨'%', ['\x7d'], rfl, by decide⟩

/-- The tags that compiling a template replaces, and the literal text around them. -/
def segments (compiler : Compiler) (source : Text) : Segments :=
  compiler.scan (compiler.stripBlocks source)

theorem compile_eq (compiler : Compiler) (source : Text) :
    compiler.compile source = (compiler.segments source).splice compiler.wrapTag := rfl

/-- What keeps code apart from the target delimiter in front of it. -/
def frontPad (config : Config) (code : Text) : Text :=
  if countDelimiters config (config.targetOpen ++ code) > countDelimiters config code
  then [' '] else []

/-- What keeps code apart from the target delimiter behind it. -/
def backPad (config : Config) (code : Text) : Text :=
  if countDelimiters config (code ++ config.targetClose) > countDelimiters config code
  then [' '] else []

theorem wrap_eq (config : Config) (code : Text) :
    wrap config code = config.targetOpen ++ (frontPad config code ++ code ++ backPad config code) ++
      config.targetClose := by
  simp [wrap, frontPad, backPad]

theorem frontPad_eq (config : Config) (code : Text) :
    frontPad config code = [] ∨ frontPad config code = [' '] := by
  unfold frontPad
  split
  · exact Or.inr rfl
  · exact Or.inl rfl

theorem backPad_eq (config : Config) (code : Text) :
    backPad config code = [] ∨ backPad config code = [' '] := by
  unfold backPad
  split
  · exact Or.inr rfl
  · exact Or.inl rfl

theorem allBlank_of_pad {pad : Text} (h : pad = [] ∨ pad = [' ']) : AllBlank pad := by
  rcases h with rfl | rfl <;> decide

end TagTemplate.Compiler
