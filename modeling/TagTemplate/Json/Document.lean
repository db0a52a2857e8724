import TagTemplate.Text.Basic

/-!
# JSON documents

The texts of the JSON grammar.  A document is read without giving meaning to what nobody
asks for: numbers and the three words are not told apart, and string literals keep their
`\u` escapes, so that a string with half of a surrogate pair is a fault only where the
string is wanted.  The text is first cut into tokens; the tokens then drive a machine that
keeps the arrays and objects which are open.
-/

namespace TagTemplate.Json

/-- A part of a string literal: a character, or the code unit of a `\u` escape. -/
inductive StringPart
  | char (c : Char)
  | unit (code : Nat)
  deriving DecidableEq, Repr

/-- A document; numbers and the words `true`, `false` and `null` are atoms. -/
inductive Document
  | atom
  | string (parts : List StringPart)
  | array (items : List Document)
  | object (fields : List (List StringPart × Document))

/-! ## Strings -/

def ofSurrogates? (high low : Nat) : Option Char :=
  if 0xd800 ≤ high ∧ high < 0xdc00 ∧ 0xdc00 ≤ low ∧ low < 0xe000 then
    Text.ofCode? (0x10000 + (high - 0xd800) * 0x400 + (low - 0xdc00))
  else none

/-- The text of a string literal, unless a surrogate in it has no partner. -/
def decode? : List StringPart → Option Text
  | [] => some []
  | .char c :: parts => (decode? parts).map (c :: ·)
  | [.unit code] => (Text.ofCode? code).map ([·])
  | .unit high :: .unit low :: parts =>
      match ofSurrogates? high low with
      | some c => (decode? parts).map (c :: ·)
      | none =>
          match Text.ofCode? high with
          | some c => (decode? (.unit low :: parts)).map (c :: ·)
          | none => none
  | .unit code :: .char c :: parts =>
      match Text.ofCode? code with
      | some d => (decode? (.char c :: parts)).map (d :: ·)
      | none => none

def shortEscape? : Char → Option Char
  | '\x22' => some '\x22'
  | '\\' => some '\\'
  | '/' => some '/'
  | 'b' => some '\x08'
  | 'f' => some '\x0c'
  | 'n' => some '\n'
  | 'r' => some '\r'
  | 't' => some '\t'
  | _ => none

/-- Reads a string literal from behind its opening quote: its parts, and what follows the
closing quote.  Control characters have to be escaped. -/
def readString? : Text → Option (List StringPart × Text)
  | [] => none
  | '\\' :: 'u' :: a :: b :: c :: d :: text =>
      match Text.hexValue? [a, b, c, d], readString? text with
      | some code, some (parts, rest) => some (.unit code :: parts, rest)
      | _, _ => none
  | '\\' :: c :: text =>
      match shortEscape? c, readString? text with
      | some d, some (parts, rest) => some (.char d :: parts, rest)
      | _, _ => none
  | c :: text =>
      if c = '\x22' then some ([], text)
      else if c = '\\' || c.toNat < 0x20 then none
      else (readString? text).map fun (parts, rest) => (.char c :: parts, rest)

theorem length_of_readString? {text rest : Text} {parts : List StringPart}
    (h : readString? text = some (parts, rest)) : rest.length < text.length := by
  fun_induction readString? text generalizing parts rest with
  | case1 => cases h
  | case2 a b c d text code parts' rest' hrest hcode ih =>
      cases h
      have := ih hrest
      simp only [List.length_cons]
      omega
  | case3 => cases h
  | case4 c text _ d parts' rest' hrest hd ih =>
      cases h
      have := ih hrest
      simp only [List.length_cons]
      omega
  | case5 => cases h
  | case6 =>
      cases h
      simp
  | case7 => cases h
  | case8 c text _ _ _ _ ih =>
      obtain ⟨⟨parts', rest'⟩, hrest, heq⟩ := Option.map_eq_some_iff.1 h
      cases heq
      have := ih hrest
      simp only [List.length_cons]
      omega

/-! ## Numbers -/

/-- What follows a run of digits with at least one digit. -/
def afterDigits? : Text → Option Text
  | [] => none
  | c :: text => if c.isDigit then some (text.dropWhile Char.isDigit) else none

def afterWhole? : Text → Option Text
  | '0' :: text => some text
  | text => afterDigits? text

def afterFraction? : Text → Option Text
  | '.' :: text => afterDigits? text
  | text => some text

def afterExponent? : Text → Option Text
  | [] => some []
  | c :: text =>
      if c = 'e' || c = 'E' then
        match text with
        | '+' :: text => afterDigits? text
        | '-' :: text => afterDigits? text
        | text => afterDigits? text
      else some (c :: text)

def afterNumber? (text : Text) : Option Text :=
  let unsigned := (Text.after? ['-'] text).getD text
  ((afterWhole? unsigned).bind afterFraction?).bind afterExponent?

theorem length_of_afterDigits? {text rest : Text} (h : afterDigits? text = some rest) :
    rest.length < text.length := by
  cases text with
  | nil => cases h
  | cons c text =>
      simp only [afterDigits?] at h
      split at h
      · cases h
        exact Nat.lt_succ_of_le (List.dropWhile_sublist _).length_le
      · cases h

theorem length_of_afterWhole? {text rest : Text} (h : afterWhole? text = some rest) :
    rest.length < text.length := by
  unfold afterWhole? at h
  split at h
  · cases h
    simp
  · exact length_of_afterDigits? h

theorem length_of_afterFraction? {text rest : Text} (h : afterFraction? text = some rest) :
    rest.length ≤ text.length := by
  unfold afterFraction? at h
  split at h
  · exact Nat.le_of_lt (Nat.lt_succ_of_lt (length_of_afterDigits? h))
  · cases h
    exact Nat.le_refl _

theorem length_of_afterExponent? {text rest : Text} (h : afterExponent? text = some rest) :
    rest.length ≤ text.length := by
  unfold afterExponent? at h
  split at h
  · cases h
    exact Nat.le_refl _
  · split at h
    · have step : ∀ {c : Char} {text : Text}, afterDigits? text = some rest →
          rest.length ≤ (c :: text).length := fun h =>
        Nat.le_of_lt (Nat.lt_succ_of_lt (length_of_afterDigits? h))
      split at h
      · exact Nat.le_succ_of_le (step h)
      · exact Nat.le_succ_of_le (step h)
      · exact step h
    · cases h
      exact Nat.le_refl _

theorem length_of_afterNumber? {text rest : Text} (h : afterNumber? text = some rest) :
    rest.length < text.length := by
  obtain ⟨mantissa, hmantissa, hexponent⟩ := Option.bind_eq_some_iff.1 h
  obtain ⟨whole, hwhole, hfraction⟩ := Option.bind_eq_some_iff.1 hmantissa
  have hsign : ((Text.after? ['-'] text).getD text).length ≤ text.length := by
    cases hminus : Text.after? ['-'] text with
    | none => exact Nat.le_refl _
    | some unsigned =>
        have := Text.length_of_after? hminus
        simp only [Option.getD_some]
        omega
  have := length_of_afterWhole? hwhole
  have := length_of_afterFraction? hfraction
  have := length_of_afterExponent? hexponent
  omega

/-! ## Tokens -/

inductive Token
  | openArray
  | closeArray
  | openObject
  | closeObject
  | comma
  | colon
  | atom
  | string (parts : List StringPart)
  deriving DecidableEq, Repr

def isSpace (c : Char) : Bool :=
  c == ' ' || c == '\t' || c == '\n' || c == '\r'

/-- What follows one of the three words. -/
def afterWord? (text : Text) : Option Text :=
  ((Text.after? "true".toList text).or (Text.after? "false".toList text)).or
    (Text.after? "null".toList text)

def readToken? : Text → Option (Token × Text)
  | '[' :: text => some (.openArray, text)
  | ']' :: text => some (.closeArray, text)
  | '\x7b' :: text => some (.openObject, text)
  | '\x7d' :: text => some (.closeObject, text)
  | ',' :: text => some (.comma, text)
  | ':' :: text => some (.colon, text)
  | '\x22' :: text => (readString? text).map fun (parts, rest) => (.string parts, rest)
  | text => ((afterWord? text).or (afterNumber? text)).map fun rest => (.atom, rest)

theorem length_of_afterWord? {text rest : Text} (h : afterWord? text = some rest) :
    rest.length < text.length := by
  simp only [afterWord?, Option.or_eq_some_iff] at h
  rcases h with (h | ⟨_, h⟩) | ⟨_, h⟩ <;>
    (rw [Text.length_of_after? h]
     exact Nat.lt_add_of_pos_left (by decide))

theorem length_of_readToken? {text rest : Text} {token : Token}
    (h : readToken? text = some (token, rest)) : rest.length < text.length := by
  unfold readToken? at h
  split at h
  case h_7 =>
    obtain ⟨⟨parts, rest'⟩, hstring, heq⟩ := Option.map_eq_some_iff.1 h
    cases heq
    exact Nat.lt_succ_of_lt (length_of_readString? hstring)
  case h_8 =>
    obtain ⟨rest', hafter, heq⟩ := Option.map_eq_some_iff.1 h
    cases heq
    rcases Option.or_eq_some_iff.1 hafter with hafter | ⟨_, hafter⟩
    · exact length_of_afterWord? hafter
    · exact length_of_afterNumber? hafter
  all_goals
    cases h
    simp

/-- The tokens of a text; every token is taken as long as it can be. -/
def tokens? : Text → Option (List Token)
  | [] => some []
  | c :: text =>
      if isSpace c then tokens? text
      else
        match h : readToken? (c :: text) with
        | none => none
        | some (token, rest) =>
            have := length_of_readToken? h
            (tokens? rest).map (token :: ·)
termination_by text => text.length
decreasing_by
  · simp
  · assumption

/-! ## Reading -/

/-- An array or object that is not closed yet, with what it holds so far, the last part
first.  An object may also hold the name of the field that is being read. -/
inductive Frame
  | array (items : List Document)
  | object (fields : List (List StringPart × Document)) (name : Option (List StringPart))

inductive Wait
  | value
  | valueOrClose
  | name
  | nameOrClose
  | colon
  | commaOrClose
  deriving DecidableEq, Repr

/-- A document, or open frames, the inner ones first, with what may come next. -/
inductive Reader
  | done (document : Document)
  | inside (frames : List Frame) (wait : Wait)

namespace Reader

def place (document : Document) : List Frame → Option Reader
  | [] => some (done document)
  | .array items :: frames => some (inside (.array (document :: items) :: frames) .commaOrClose)
  | .object fields (some name) :: frames =>
      some (inside (.object ((name, document) :: fields) none :: frames) .commaOrClose)
  | .object _ none :: _ => none

def takeValue (frames : List Frame) : Token → Option Reader
  | .atom => place .atom frames
  | .string parts => place (.string parts) frames
  | .openArray => some (inside (.array [] :: frames) .valueOrClose)
  | .openObject => some (inside (.object [] none :: frames) .nameOrClose)
  | _ => none

def takeName : List Frame → Token → Option Reader
  | .object fields none :: frames, .string parts =>
      some (inside (.object fields (some parts) :: frames) .colon)
  | _, _ => none

def close : List Frame → Token → Option Reader
  | .array items :: frames, .closeArray => place (.array items.reverse) frames
  | .object fields none :: frames, .closeObject => place (.object fields.reverse) frames
  | _, _ => none

def continue? : List Frame → Option Reader
  | .array items :: frames => some (inside (.array items :: frames) .value)
  | .object fields none :: frames => some (inside (.object fields none :: frames) .name)
  | _ => none

def step : Reader → Token → Option Reader
  | done _, _ => none
  | inside frames .value, token => takeValue frames token
  | inside frames .valueOrClose, token =>
      if token = .closeArray then close frames token else takeValue frames token
  | inside frames .name, token => takeName frames token
  | inside frames .nameOrClose, token =>
      if token = .closeObject then close frames token else takeName frames token
  | inside frames .colon, token => if token = .colon then some (inside frames .value) else none
  | inside frames .commaOrClose, token =>
      if token = .comma then continue? frames else close frames token

end Reader

def Document.ofText? (text : Text) : Option Document :=
  (tokens? text).bind fun tokens =>
    match tokens.foldlM Reader.step (.inside [] .value) with
    | some (.done document) => some document
    | _ => none

end TagTemplate.Json
