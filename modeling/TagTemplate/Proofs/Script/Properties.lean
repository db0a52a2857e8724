import TagTemplate.Json.Value
import TagTemplate.Proofs.Table

/-!
# Own properties of data

To a script, objects own their fields, and arrays own their items, each under the decimal
numeral of its index, and their length.  Paths of properties exist where the paths of the
data do, but for two kinds of segments on arrays (`Json.hasPath_eq_ownsPath_iff`).
-/

namespace TagTemplate

namespace Json

def int (value : Int) : Json :=
  .number ⟨value, 0⟩

/-- A natural number in decimal digits. -/
def numeral (value : Nat) : Text :=
  Nat.toDigits 10 value

def isContainer : Json → Bool
  | object _ => true
  | array _ => true
  | _ => false

def properties : Json → List (Text × Json)
  | object fields => fields
  | array items =>
      ("length".toList, int items.length) ::
        items.zipIdx.map fun (item, index) => (numeral index, item)
  | _ => []

/-- The own property of a name. -/
def property? (node : Json) (name : Text) : Option Json :=
  Table.valueIn? name node.properties

/-- Every segment names an own property of the value before it. -/
def ownsPath : Json → List Text → Bool
  | _, [] => true
  | node, segment :: segments =>
      (node.property? segment).any fun child => child.ownsPath segments

theorem property?_of_not_isContainer {node : Json} (h : node.isContainer = false) (name : Text) :
    node.property? name = none := by
  cases node with
  | object fields => cases h
  | array items => cases h
  | _ => rfl

/-! ## Arrays -/

theorem numeral_injective {left right : Nat} (h : numeral left = numeral right) : left = right := by
  have hvalues := congrArg (fun digits => Nat.ofDigitChars 10 digits 0) h
  simpa [numeral] using hvalues

theorem isDigit_of_mem_numeral {c : Char} {value : Nat} (h : c ∈ numeral value) :
    c.isDigit = true :=
  Nat.isDigit_of_mem_toDigits (by decide) (by decide) h

theorem numeral_ne_length (value : Nat) : numeral value ≠ "length".toList := by
  intro h
  have hdigit : 'l' ∈ numeral value := by
    rw [h]
    decide
  exact absurd (isDigit_of_mem_numeral hdigit) (by decide)

theorem index?_numeral (value : Nat) : index? (numeral value) = some value := by
  have hdigits : (numeral value).all Char.isDigit = true :=
    List.all_eq_true.2 fun c hc => isDigit_of_mem_numeral hc
  have hsign : Text.after? ['+'] (numeral value) = none := by
    cases hafter : Text.after? ['+'] (numeral value) with
    | none => rfl
    | some rest =>
        have hplus : '+' ∈ numeral value := by
          rw [Text.after?_eq_some_iff.1 hafter]
          exact List.mem_cons_self
        exact absurd (isDigit_of_mem_numeral hplus) (by decide)
  have hne : (numeral value).isEmpty = false :=
    List.isEmpty_eq_false_iff.2 Nat.toDigits_ne_nil
  have hvalue : (numeral value).foldl
      (fun value digit => 10 * value + (digit.toNat - '0'.toNat)) 0 = value :=
    Nat.ofDigitChars_ten_toDigits
  rw [index?, hsign, Option.getD_none]
  rw [hne, hdigits, hvalue]
  rfl

@[simp] theorem property?_array_length (items : List Json) :
    (array items).property? "length".toList = some (int items.length) :=
  Table.valueIn?_cons_self _ _ _

/-- The items from an index on. -/
theorem valueIn?_numeral (items : List Json) (start offset : Nat) :
    Table.valueIn? (numeral (start + offset))
      ((items.zipIdx start).map fun (item, index) => (numeral index, item)) = items[offset]? := by
  induction items generalizing start offset with
  | nil => rfl
  | cons item items ih =>
      rw [List.zipIdx_cons, List.map_cons, Table.valueIn?]
      cases offset with
      | zero => rw [Nat.add_zero, if_pos rfl, List.getElem?_cons_zero]
      | succ offset =>
          rw [if_neg fun h => absurd (numeral_injective h) (by omega), List.getElem?_cons_succ,
            ← ih (start + 1) offset]
          congr 2
          omega

@[simp] theorem property?_array_numeral (items : List Json) (index : Nat) :
    (array items).property? (numeral index) = items[index]? := by
  rw [property?, properties, Table.valueIn?, if_neg (numeral_ne_length index)]
  simpa using valueIn?_numeral items 0 index

theorem property?_array_eq_none {items : List Json} {name : Text} (hlength : name ≠ "length".toList)
    (hnumeral : ∀ index, name ≠ numeral index) : (array items).property? name = none := by
  cases hproperty : (array items).property? name with
  | none => rfl
  | some child =>
      rcases List.mem_cons.1 (Table.mem_of_valueIn? hproperty) with hmem | hmem
      · exact absurd (Prod.mk.inj hmem).1 hlength
      · obtain ⟨⟨item, index⟩, -, heq⟩ := List.mem_map.1 hmem
        exact absurd (Prod.mk.inj heq).1.symm (hnumeral index)

theorem index?_ne_length {name : Text} {index : Nat} (h : index? name = some index) :
    name ≠ "length".toList := by
  rintro rfl
  rw [show index? "length".toList = none by decide] at h
  cases h

/-- An index that is spelled differently from its numeral names no property. -/
theorem property?_array_of_padded (items : List Json) {name : Text} {index : Nat}
    (hindex : index? name = some index) (hnumeral : name ≠ numeral index) :
    (array items).property? name = none := by
  refine property?_array_eq_none (index?_ne_length hindex) ?_
  rintro value rfl
  rw [index?_numeral] at hindex
  exact hnumeral (congrArg numeral (Option.some.inj hindex))

theorem child?_array_length (items : List Json) : (array items).child? "length".toList = none := by
  rw [child?, show index? "length".toList = none by decide, Option.bind_none]

/-! ## Paths -/

/-- Where the data and its properties differ on what a segment names: an array owns its
length, and an index that is not spelled as its numeral names no property. -/
theorem property?_cases (node : Json) (segment : Text) :
    node.property? segment = node.child? segment ∨
      (∃ items, node = array items ∧ segment = "length".toList) ∨
      ∃ items index item, node = array items ∧ index? segment = some index ∧
        segment ≠ numeral index ∧ items[index]? = some item := by
  cases node with
  | object fields => exact .inl rfl
  | array items =>
      by_cases hlength : segment = "length".toList
      · exact .inr (.inl ⟨items, rfl, hlength⟩)
      cases hindex : index? segment with
      | none =>
          left
          rw [property?_array_eq_none hlength, child?, hindex, Option.bind_none]
          rintro value rfl
          rw [index?_numeral] at hindex
          cases hindex
      | some index =>
          by_cases hnumeral : segment = numeral index
          · left
            rw [child?, hindex, hnumeral, property?_array_numeral, Option.bind_some]
          cases hitem : items[index]? with
          | some item => exact .inr (.inr ⟨items, index, item, rfl, rfl, hnumeral, hitem⟩)
          | none =>
              left
              rw [property?_array_of_padded items hindex hnumeral, child?, hindex,
                Option.bind_some, hitem]
  | _ => exact .inl rfl

/-- The path exists in the data and not as properties, or the other way around. -/
inductive Misread : Json → List Text → Prop
  /-- An array owns its length, which has no properties. -/
  | length (items : List Json) : Misread (array items) ["length".toList]
  /-- An index that is not spelled as its numeral, such as one with leading zeros, names an
  item but no property. -/
  | padded {items : List Json} {segment : Text} {index : Nat} {item : Json}
      {segments : List Text} (hindex : index? segment = some index)
      (hnumeral : segment ≠ numeral index) (hitem : items[index]? = some item)
      (hpath : item.hasPath segments = true) : Misread (array items) (segment :: segments)
  /-- The segment names the same either way, and below it the path is misread. -/
  | child {node child : Json} {segment : Text} {segments : List Text}
      (hchild : node.child? segment = some child)
      (hproperty : node.property? segment = some child) (hmisread : Misread child segments) :
      Misread node (segment :: segments)

theorem misread_length_iff (items : List Json) (segments : List Text) :
    Misread (array items) ("length".toList :: segments) ↔ segments = [] := by
  constructor
  · intro h
    cases h with
    | length => rfl
    | padded hindex => exact absurd rfl (index?_ne_length hindex)
    | child hchild =>
        rw [child?_array_length] at hchild
        cases hchild
  · rintro rfl
    exact .length items

theorem misread_padded_iff {items : List Json} {segment : Text} {index : Nat} {item : Json}
    (hindex : index? segment = some index) (hnumeral : segment ≠ numeral index)
    (hitem : items[index]? = some item) (segments : List Text) :
    Misread (array items) (segment :: segments) ↔ item.hasPath segments = true := by
  refine ⟨?_, Misread.padded hindex hnumeral hitem⟩
  intro h
  cases h with
  | length => exact absurd rfl (index?_ne_length hindex)
  | padded hindex' hnumeral' hitem' hpath =>
      obtain rfl := Option.some.inj (hindex.symm.trans hindex')
      obtain rfl := Option.some.inj (hitem.symm.trans hitem')
      exact hpath
  | child hchild hproperty =>
      rw [property?_array_of_padded items hindex hnumeral] at hproperty
      cases hproperty

theorem misread_of_same {node : Json} {segment : Text}
    (hsame : node.property? segment = node.child? segment) (segments : List Text) :
    Misread node (segment :: segments) ↔
      ∃ child, node.child? segment = some child ∧ Misread child segments := by
  constructor
  · intro h
    cases h with
    | length items =>
        rw [property?_array_length, child?_array_length] at hsame
        cases hsame
    | @padded items _ index item _ hindex hnumeral hitem hpath =>
        rw [property?_array_of_padded items hindex hnumeral, child?, hindex, Option.bind_some,
          hitem] at hsame
        cases hsame
    | child hchild hproperty hmisread => exact ⟨_, hchild, hmisread⟩
  · rintro ⟨child, hchild, hmisread⟩
    exact .child hchild (hsame.trans hchild) hmisread

theorem int_ownsPath (value : Int) (segments : List Text) :
    (int value).ownsPath segments = segments.isEmpty := by
  cases segments <;> rfl

/-- Induction on the path; at each segment the two name the same, or one of them names nothing. -/
theorem hasPath_eq_ownsPath_iff (node : Json) (segments : List Text) :
    node.hasPath segments = node.ownsPath segments ↔ ¬ Misread node segments := by
  induction segments generalizing node with
  | nil =>
      refine iff_of_true rfl ?_
      rintro ⟨⟩
  | cons segment segments ih =>
      rw [hasPath, ownsPath]
      rcases property?_cases node segment with hsame | ⟨items, rfl, rfl⟩ |
        ⟨items, index, item, rfl, hindex, hnumeral, hitem⟩
      · rw [misread_of_same hsame, hsame]
        cases hchild : node.child? segment with
        | none => simp
        | some child => simp [ih child]
      · rw [misread_length_iff, child?_array_length, property?_array_length, Option.any_none,
          Option.any_some, int_ownsPath]
        cases segments <;> simp
      · rw [misread_padded_iff hindex hnumeral hitem,
          property?_array_of_padded items hindex hnumeral, child?, hindex, Option.bind_some, hitem,
          Option.any_none, Option.any_some]
        simp

end Json

end TagTemplate
