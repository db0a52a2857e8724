/-!
# Texts

A text is the list of its characters.  This module holds the operations on texts
that know nothing about tags: dropping a token from the front, cutting at a
character, measuring a text by the bytes of its UTF-8 form, and the hexadecimal
numbers by which escapes name characters, in either case.

The blanks are the characters of the Unicode property White_Space.  They bound
the words of a tag, and they are trimmed from tag bodies and from the pieces of
an expression.
-/

namespace TagTemplate

abbrev Text := List Char

namespace Text

/-- What follows `token` in a text that starts with it. -/
def after? : Text → Text → Option Text
  | [], text => some text
  | _ :: _, [] => none
  | c :: token, d :: text => if c = d then after? token text else none

theorem after?_eq_some_iff {token text rest : Text} :
    after? token text = some rest ↔ text = token ++ rest := by
  induction token generalizing text with
  | nil => simp [after?]
  | cons c token ih =>
      cases text with
      | nil => simp [after?]
      | cons d text =>
          by_cases h : c = d
          · simp [after?, h, ih]
          · simp [after?, h, Ne.symm h]

theorem after?_append (token rest : Text) : after? token (token ++ rest) = some rest :=
  after?_eq_some_iff.2 rfl

theorem length_of_after? {token text rest : Text} (h : after? token text = some rest) :
    text.length = token.length + rest.length := by
  rw [after?_eq_some_iff.1 h, List.length_append]

/-- Cuts a text at the first `separator`, which belongs to neither half. -/
def cutFirst? (separator : Char) : Text → Option (Text × Text)
  | [] => none
  | c :: text =>
      if c = separator then some ([], text)
      else (cutFirst? separator text).map fun (front, back) => (c :: front, back)

/-- Cuts a text at every `separator`: the first field and the other fields. -/
def fields (separator : Char) : Text → Text × List Text
  | [] => ([], [])
  | c :: text =>
      let (first, others) := fields separator text
      if c = separator then ([], first :: others) else (c :: first, others)

def byteSize : Text → Nat
  | [] => 0
  | c :: text => c.utf8Size + byteSize text

@[simp] theorem byteSize_append (front back : Text) :
    byteSize (front ++ back) = byteSize front + byteSize back := by
  induction front with
  | nil => simp [byteSize]
  | cons c front ih => simp only [List.cons_append, byteSize, ih, Nat.add_assoc]

theorem fields_intercalate (separator : Char) (text : Text) :
    List.intercalate [separator] ((fields separator text).1 :: (fields separator text).2) =
      text := by
  induction text with
  | nil => simp [fields, List.intercalate]
  | cons c text ih =>
      by_cases h : c = separator
      · simp only [fields, h, if_true]
        rw [List.intercalate_cons_cons, ih]
        simp
      · simp only [fields, h, if_false]
        cases hf : fields separator text with
        | mk first others =>
            simp only [hf] at ih ⊢
            cases others with
            | nil => simpa [List.intercalate] using ih
            | cons second others =>
                rw [List.intercalate_cons_cons] at ih ⊢
                simp [← ih]

/-! ## Hexadecimal numbers -/

def hexDigit? (c : Char) : Option Nat :=
  if '0' ≤ c ∧ c ≤ '9' then some (c.toNat - '0'.toNat)
  else if 'a' ≤ c ∧ c ≤ 'f' then some (c.toNat - 'a'.toNat + 10)
  else if 'A' ≤ c ∧ c ≤ 'F' then some (c.toNat - 'A'.toNat + 10)
  else none

def hexValue? (digits : Text) : Option Nat :=
  digits.foldlM (fun value c => (hexDigit? c).map fun digit => 16 * value + digit) 0

def ofCode? (code : Nat) : Option Char :=
  if h : code.isValidChar then some (Char.ofNatAux code h) else none

end Text

/-! ## Blanks, trimming and words -/

/-- The characters with the Unicode property White_Space. -/
def isBlank (c : Char) : Bool :=
  let n := c.toNat
  (0x9 ≤ n && n ≤ 0xd) || n == 0x20 || n == 0x85 || n == 0xa0 || n == 0x1680 ||
    (0x2000 ≤ n && n ≤ 0x200a) || n == 0x2028 || n == 0x2029 || n == 0x202f ||
    n == 0x205f || n == 0x3000

namespace Text

def trimStart (text : Text) : Text :=
  text.dropWhile isBlank

def trimEnd : Text → Text
  | [] => []
  | c :: text =>
      match trimEnd text with
      | [] => if isBlank c then [] else [c]
      | d :: rest => c :: d :: rest

def trim (text : Text) : Text :=
  trimEnd (trimStart text)

/-- The maximal runs of characters that are not blank. -/
def words : Text → List Text
  | [] => []
  | c :: text =>
      if isBlank c then words text
      else
        (c :: text.takeWhile fun d => !isBlank d) :: words (text.dropWhile fun d => !isBlank d)
termination_by text => text.length
decreasing_by
  · simp
  · exact Nat.lt_succ_of_le (List.dropWhile_sublist _).length_le

def ofWords (words : List Text) : Text :=
  List.intercalate [' '] words

end Text

end TagTemplate
