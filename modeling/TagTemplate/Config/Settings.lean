import TagTemplate.Config.Basic
import TagTemplate.Json.Document
import TagTemplate.Yaml.Node

/-!
# Settings

Configurations can be written as texts in which settings stand under keys.  A setting that
is not given keeps its standard value, an unknown key is ignored whatever stands under it,
and no setting is given twice.

In JSON a configuration is an object with settings under their keys, or an array of at most
five strings that give the settings in their order.  In YAML it is a mapping; a text without
a document, or with one that is left empty, gives the standard configuration.
-/

namespace TagTemplate

inductive Setting
  | sourceOpen
  | sourceClose
  | targetOpen
  | targetClose
  | metaMark
  deriving DecidableEq, Repr

namespace Setting

def all : List Setting :=
  [sourceOpen, sourceClose, targetOpen, targetClose, metaMark]

def key : Setting → Text
  | sourceOpen => "leftToken".toList
  | sourceClose => "rightToken".toList
  | targetOpen => "tplLeftToken".toList
  | targetClose => "tplRightToken".toList
  | metaMark => "metaPrefix".toList

def ofKey? (key : Text) : Option Setting :=
  all.find? fun setting => setting.key == key

theorem ofKey?_key (setting : Setting) : ofKey? setting.key = some setting := by
  cases setting <;> decide

def value (config : Config) : Setting → Text
  | sourceOpen => config.sourceOpen
  | sourceClose => config.sourceClose
  | targetOpen => config.targetOpen
  | targetClose => config.targetClose
  | metaMark => config.metaMark

def assign (config : Config) (setting : Setting) (value : Text) : Config :=
  match setting with
  | sourceOpen => { config with sourceOpen := value }
  | sourceClose => { config with sourceClose := value }
  | targetOpen => { config with targetOpen := value }
  | targetClose => { config with targetClose := value }
  | metaMark => { config with metaMark := value }

theorem value_assign (config : Config) (setting other : Setting) (text : Text) :
    other.value (assign config setting text) =
      if other = setting then text else other.value config := by
  cases setting <;> cases other <;> rfl

end Setting

namespace Config

/-- The standard configuration with the given settings in place of its own. -/
def ofSettings (settings : List (Setting × Text)) : Config :=
  settings.foldl (fun config (setting, value) => Setting.assign config setting value) standard

/-- The settings among the entries of a text: `none` if one of them is given twice or is
not a text.  An entry has a key and, if its value is a text, that text. -/
def settings? : List (Text × Option Text) → Option (List (Setting × Text))
  | [] => some []
  | (key, value) :: entries =>
      match Setting.ofKey? key with
      | none => settings? entries
      | some setting =>
          match value, settings? entries with
          | some text, some settings =>
              if settings.any fun (other, _) => other == setting then none
              else some ((setting, text) :: settings)
          | _, _ => none

def validated (config : Config) : Except Error Config :=
  match config.fault? with
  | none => .ok config
  | some fault => .error (.invalidConfig fault)

/-! ## JSON -/

def jsonText? : Json.Document → Option Text
  | .string parts => Json.decode? parts
  | _ => none

def settingsOfFields? (fields : List (List Json.StringPart × Json.Document)) :
    Option (List (Setting × Text)) :=
  (fields.mapM fun (name, value) =>
    (Json.decode? name).map fun key => (key, jsonText? value)).bind settings?

def settingsOfItems? (items : List Json.Document) : Option (List (Setting × Text)) :=
  if items.length ≤ Setting.all.length then
    (items.mapM jsonText?).map fun texts => Setting.all.zip texts
  else none

def settingsOfJson? : Json.Document → Option (List (Setting × Text))
  | .object fields => settingsOfFields? fields
  | .array items => settingsOfItems? items
  | _ => none

def ofJson (text : Text) : Except Error Config :=
  match (Json.Document.ofText? text).bind settingsOfJson? with
  | none => .error .json
  | some settings => (ofSettings settings).validated

/-! ## YAML -/

def textPair? (entry : Yaml.Node × Yaml.Node) : Option (Text × Option Text) :=
  entry.1.text?.map fun key => (key, entry.2.text?)

def settingsOfEntries? (entries : List (Yaml.Node × Yaml.Node)) :
    Option (List (Setting × Text)) :=
  (entries.mapM textPair?).bind settings?

def settingsOfYaml? : Option Yaml.Node → Option (List (Setting × Text))
  | none => some []
  | some (.scalar text plain) => if text.isEmpty && plain then some [] else none
  | some (.mapping entries) => settingsOfEntries? entries
  | some _ => none

def ofYaml (text : Text) : Except Error Config :=
  match (Yaml.Node.ofText? text).bind settingsOfYaml? with
  | none => .error .yaml
  | some settings => (ofSettings settings).validated

end Config

end TagTemplate
