import TagTemplate.Table
import TagTemplate.Text.Quoted

/-!
# Sigils and attributes

Templates mark variables by `$` and the metadata of a loop by `@`, as in `$row@index`.  Target
code has no sigils: `$` is dropped, and `@` becomes access to a property whose name starts with
the metadata mark, as in `row.__index`.

Attributes are the words of a tag body that are written `key=value`.  A word is cut at its
first equals sign; a word without one is a key that has no value.  Of two words with the same
key the later one counts.
-/

namespace TagTemplate

namespace Sigil

/-- Drops every `$` and spells every `@` as a dot and the metadata mark. -/
def normalize (metaMark : Text) : Text → Text
  | [] => []
  | c :: raw =>
      if c = '$' then normalize metaMark raw
      else if c = '@' then '.' :: metaMark ++ normalize metaMark raw
      else c :: normalize metaMark raw

def dropDollars (raw : Text) : Text :=
  raw.filter (· != '$')

theorem normalize_append (metaMark front back : Text) :
    normalize metaMark (front ++ back) = normalize metaMark front ++ normalize metaMark back := by
  induction front with
  | nil => rfl
  | cons c front ih =>
      simp only [List.cons_append, normalize, ih]
      split
      · rfl
      · split <;> simp

theorem normalize_dropDollars (metaMark raw : Text) :
    normalize metaMark (dropDollars raw) = normalize metaMark raw := by
  induction raw with
  | nil => rfl
  | cons c raw ih =>
      by_cases h : c = '$'
      · simpa [dropDollars, normalize, h] using ih
      · simp only [dropDollars] at ih
        simp [dropDollars, normalize, h, ih]

end Sigil

/-- The keys of a tag body, each with its value if it has one. -/
abbrev Attributes := Table (Option Text)

namespace Attributes

/-- The key and the value of a word; dollar signs are dropped from the value. -/
def ofWord (word : Text) : Text × Option Text :=
  match Text.cutFirst? '=' word with
  | none => (word, none)
  | some (key, value) => (key, some (Sigil.dropDollars value))

def read (body : Text) : Attributes :=
  Table.ofList ((Text.words body).map ofWord)

def value? (attributes : Attributes) (key : Text) : Option Text :=
  (attributes.find? key).join

/-- The value of a key without quotes around it, for a place that names a variable. -/
def ident? (attributes : Attributes) (key : Text) : Option Text :=
  (attributes.value? key).map Text.stripQuotes

/-- What stands for an attribute that a tag needs and does not have. -/
def missing : Text :=
  "undefined".toList

end Attributes

end TagTemplate
