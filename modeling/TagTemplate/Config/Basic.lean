import TagTemplate.Text.Basic

/-!
# Configurations

A configuration names the delimiters of the tags that are looked for in templates,
the delimiters that are put around target code, and the mark that starts the names
of loop metadata.  `fault?` says what makes a configuration unusable.  Compiling a
template does not fail; errors arise around it, from configurations, from template
ids without a source, and from renderers and their data.
-/

namespace TagTemplate

structure Config where
  sourceOpen : Text
  sourceClose : Text
  targetOpen : Text
  targetClose : Text
  metaMark : Text
  deriving DecidableEq, Repr

inductive ConfigFault
  /-- A delimiter of source tags is empty, so it would be found everywhere. -/
  | emptyDelimiter
  /-- The metadata mark cannot start the name of a property. -/
  | badMetaMark (mark : Text)
  deriving DecidableEq, Repr

namespace ConfigFault

def reason : ConfigFault → Text
  | emptyDelimiter => "source delimiters must not be empty".toList
  | badMetaMark mark =>
      "meta prefix '".toList ++ mark ++ "' is not a valid property name prefix".toList

end ConfigFault

namespace Config

/-- Tags are written `{% … %}`, target code `<% … %>`, and metadata names start
with two underscores. -/
def standard : Config where
  sourceOpen := "\x7b%".toList
  sourceClose := "%\x7d".toList
  targetOpen := "<%".toList
  targetClose := "%>".toList
  metaMark := "__".toList

instance : Inhabited Config := ⟨standard⟩

def isMetaMarkChar (c : Char) : Bool :=
  c.isAlphanum || c == '_' || c == '$'

/-- A metadata mark is not empty, consists of mark characters, and does not start
with a digit. -/
def isMetaMark (mark : Text) : Bool :=
  !mark.isEmpty && mark.all isMetaMarkChar && !mark.head?.any Char.isDigit

/-- The first fault of a configuration; the delimiters are looked at first. -/
def fault? (config : Config) : Option ConfigFault :=
  if config.sourceOpen.isEmpty || config.sourceClose.isEmpty then some .emptyDelimiter
  else if isMetaMark config.metaMark then none
  else some (.badMetaMark config.metaMark)

def Valid (config : Config) : Prop :=
  config.fault? = none

instance (config : Config) : Decidable config.Valid :=
  inferInstanceAs (Decidable (config.fault? = none))

theorem valid_iff (config : Config) :
    config.Valid ↔
      config.sourceOpen ≠ [] ∧ config.sourceClose ≠ [] ∧ isMetaMark config.metaMark = true := by
  unfold Valid fault?
  by_cases hopen : config.sourceOpen = []
  · simp [hopen]
  · by_cases hclose : config.sourceClose = []
    · simp [hclose]
    · by_cases hmark : isMetaMark config.metaMark = true <;> simp [hopen, hclose, hmark]

theorem standard_valid : standard.Valid := by
  decide

end Config

/-! ## Errors -/

inductive Error
  | invalidConfig (fault : ConfigFault)
  | templateNotFound (id : Text)
  /-- A renderer refused a compiled template or its data. -/
  | render (reason : Text)
  | yaml
  /-- A configuration text is no JSON configuration, or data cannot be converted to JSON. -/
  | json
  deriving DecidableEq, Repr

/-- The error in words; what cannot be read or converted is not described further. -/
def Error.message? : Error → Option Text
  | invalidConfig fault => some ("invalid configuration: ".toList ++ fault.reason)
  | templateNotFound id => some ("template not found: ".toList ++ id)
  | render reason => some ("render error: ".toList ++ reason)
  | yaml => none
  | json => none

end TagTemplate
