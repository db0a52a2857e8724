import TagTemplate.Proofs.Expression.Parts
import TagTemplate.Proofs.Script.Language

/-!
# The helper of the filter isset

The code of the filter for a dotted path calls a function in the language of helpers, which
looks the path up among own properties (`Script.call_walk`).  So it agrees with the test on
data but for the paths that are misread (`Script.isset_iff_not_misread`).
-/

namespace TagTemplate.Script

/-! ## The helper -/

def nodeVar : Expr := .var "node".toList

def pathVar : Expr := .var "path".toList

def indexVar : Expr := .var "i".toList

def pathLength : Expr := .field pathVar "length".toList

def segmentAtIndex : Expr := .item pathVar indexVar

def nodeIsNoContainer : Expr :=
  .binary .either
    (.binary .either (.binary .same nodeVar (.literal .null)) (.binary .same nodeVar .undefined))
    (.binary .unequal (.typeOf nodeVar) (.literal (.string "object".toList)))

def indexIsLast : Expr :=
  .binary .equal indexVar (.binary .minus pathLength (.literal (.int 1)))

def indexIsBelow : Expr :=
  .binary .less indexVar pathLength

/-- One round of the loop. -/
def visit : Stmt :=
  .seq (.cond nodeIsNoContainer (.ret (.literal (.bool false))))
    (.seq (.cond indexIsLast (.ret (.hasOwn nodeVar segmentAtIndex)))
      (.assign "node".toList (.item nodeVar segmentAtIndex)))

def walk : Function where
  parameters := ["node".toList, "path".toList]
  body :=
    .seq (.count "i".toList 1 indexIsBelow visit)
      (.ret (.binary .both (.binary .different nodeVar (.literal .null))
        (.binary .different nodeVar .undefined)))

theorem render_walk : walk.render = Filter.walkHelper := by
  have hpieces : ∀ text : Text, text = walk.render → text = Filter.walkHelper := by
    intro text htext
    -- The characters of one long literal would be slow to count.
    unfold Filter.walkHelper
    rw [String.toList_append, String.toList_append, String.toList_append, String.toList_append,
      String.toList_append, String.toList_append, String.toList_append]
    subst htext
    decide +kernel
  exact hpieces _ rfl

/-! ## A round -/

/-- The function says `object` of containers and of no other value. -/
def TellsContainers (kindOf : Value → Text) : Prop :=
  ∀ value, kindOf value = "object".toList ↔ value.container?.isSome = true

/-- The walk along a path has come to a node, and looks for the segment of an index there. -/
structure Scope.At (scope : Scope) (path : List Text) (index : Nat) (node : Value) : Prop where
  node : scope "node".toList = some node
  path : scope "path".toList = some (some (.array (path.map .string)))
  index : scope "i".toList = some (some (.int index))

section

variable {kindOf : Value → Text} {scope : Scope} {path : List Text} {index : Nat} {node : Value}

theorem eval_nodeVar (h : scope.At path index node) : nodeVar.eval kindOf scope = some node :=
  h.node

theorem eval_pathVar (h : scope.At path index node) :
    pathVar.eval kindOf scope = some (some (.array (path.map .string))) :=
  h.path

theorem eval_indexVar (h : scope.At path index node) :
    indexVar.eval kindOf scope = some (some (.int index)) :=
  h.index

theorem eval_pathLength (h : scope.At path index node) :
    pathLength.eval kindOf scope = some (some (.int path.length)) := by
  rw [pathLength, Expr.eval_field kindOf (eval_pathVar h) rfl, Json.property?_array_length,
    List.length_map]

theorem eval_segmentAtIndex (h : scope.At path index node) :
    segmentAtIndex.eval kindOf scope = some ((path[index]?).map Json.string) := by
  have hname : Value.name? (some (Json.int index)) = some (Json.numeral index) := rfl
  rw [segmentAtIndex, Expr.eval_item kindOf (eval_pathVar h) rfl (eval_indexVar h) hname,
    Json.property?_array_numeral, List.getElem?_map]

theorem eval_indexIsLast (h : scope.At path index node) :
    indexIsLast.eval kindOf scope = some (ofBool (index + 1 == path.length)) := by
  have hminus : Expr.eval kindOf scope (.binary .minus pathLength (.literal (.int 1))) =
      some (some (.int (path.length - 1))) := by
    rw [Expr.eval_binary kindOf (eval_pathLength h) (Expr.eval_literal kindOf scope _)]
    rfl
  have hequal : Binary.equal.apply (some (.int index)) (some (.int (path.length - 1))) =
      some (ofBool ((index : Int) * 1 == (path.length - 1 : Int) * 1)) := rfl
  rw [indexIsLast, Expr.eval_binary kindOf (eval_indexVar h) hminus, hequal]
  congr 2
  rw [Bool.eq_iff_iff, beq_iff_eq, beq_iff_eq]
  omega

theorem eval_nodeIsNoContainer (hkind : TellsContainers kindOf) (h : scope.At path index node) :
    nodeIsNoContainer.eval kindOf scope = some (ofBool node.container?.isNone) := by
  have hnull : Expr.eval kindOf scope (.binary .same nodeVar (.literal .null)) =
      some (ofBool (node.any Json.isNull)) := by
    rw [Expr.eval_binary kindOf (eval_nodeVar h) (Expr.eval_literal kindOf scope _), Binary.apply,
      Value.same?_null]
    rfl
  have hundefined : Expr.eval kindOf scope (.binary .same nodeVar .undefined) =
      some (ofBool node.isNone) := by
    rw [Expr.eval_binary kindOf (eval_nodeVar h) (Expr.eval_undefined kindOf scope), Binary.apply,
      Value.same?_undefined]
    rfl
  have hobject : Expr.eval kindOf scope
      (.binary .unequal (.typeOf nodeVar) (.literal (.string "object".toList))) =
      some (ofBool node.container?.isNone) := by
    have hkindOf : Expr.eval kindOf scope (.typeOf nodeVar) =
        some (some (.string (kindOf node))) := by
      rw [Expr.eval, eval_nodeVar h]
      rfl
    have hequal : (kindOf node == "object".toList) = node.container?.isSome := by
      rw [Bool.eq_iff_iff, beq_iff_eq]
      exact hkind node
    rw [Expr.eval_binary kindOf hkindOf (Expr.eval_literal kindOf scope _)]
    show some (ofBool !(kindOf node == "object".toList)) = _
    rw [hequal, Option.not_isSome]
  have hnothing := (Expr.eval_binary kindOf hnull hundefined).trans (Binary.apply_either _ _)
  rw [nodeIsNoContainer, Expr.eval_binary kindOf hnothing hobject, Binary.apply_either]
  congr 2
  rcases node with _ | node
  · rfl
  · cases node <;> rfl

section

variable {segment : Text} {container : Json} (rounds : Nat)

theorem run_visit_of_no_container (hkind : TellsContainers kindOf) (h : scope.At path index node)
    (hnode : node.container? = none) :
    visit.run kindOf rounds scope = some (.returned (ofBool false)) := by
  refine Stmt.run_seq_of_returned kindOf _ ?_
  rw [Stmt.run_cond kindOf rounds _ (eval_nodeIsNoContainer hkind h), hnode]
  rfl

theorem run_visit_of_container (hkind : TellsContainers kindOf) (h : scope.At path index node)
    (hnode : node.container? = some container) (hsegment : path[index]? = some segment) :
    visit.run kindOf rounds scope =
      if index + 1 = path.length then
        some (.returned (ofBool (container.property? segment).isSome))
      else some (.next (scope.set "node".toList (container.property? segment))) := by
  have hfirst : (Stmt.cond nodeIsNoContainer (.ret (.literal (.bool false)))).run kindOf rounds
      scope = some (.next scope) := by
    rw [Stmt.run_cond kindOf rounds _ (eval_nodeIsNoContainer hkind h), hnode]
    rfl
  have hname : Value.name? (some (.string segment)) = some segment := rfl
  have hkey : segmentAtIndex.eval kindOf scope = some (some (.string segment)) := by
    rw [eval_segmentAtIndex h, hsegment, Option.map_some]
  have hhasOwn := Expr.eval_hasOwn kindOf (eval_nodeVar h) hnode hkey hname
  have hitem := Expr.eval_item kindOf (eval_nodeVar h) hnode hkey hname
  have hlast := Stmt.run_cond kindOf rounds (.ret (.hasOwn nodeVar segmentAtIndex))
    (eval_indexIsLast h)
  rw [visit, Stmt.run_seq_of_next kindOf _ hfirst]
  split
  · rename_i hindex
    refine Stmt.run_seq_of_returned kindOf _ ?_
    rw [hlast, beq_iff_eq.2 hindex, if_pos rfl, Stmt.run, hhasOwn]
    rfl
  · rename_i hindex
    rw [beq_eq_false_iff_ne.2 hindex] at hlast
    rw [Stmt.run_seq_of_next kindOf _ hlast, Stmt.run, hitem]
    rfl

end

/-! ## The walk -/

theorem Scope.At.advance (h : scope.At path index node) (child : Value) :
    ((scope.set "node".toList child).set "i".toList (some (.int (index + 1)))).At path (index + 1)
      child where
  node := rfl
  path := h.path
  index := rfl

theorem ownsPath_of_no_container {value : Value} (h : value.container? = none) (segment : Text)
    (segments : List Text) :
    value.any (fun node => node.ownsPath (segment :: segments)) = false := by
  cases value with
  | none => rfl
  | some node =>
      rw [Value.container?] at h
      split at h
      · cases h
      · rename_i hnode
        rw [Option.any_some, Json.ownsPath,
          Json.property?_of_not_isContainer (Bool.eq_false_iff.2 hnode)]
        rfl

/-- The loop of the helper, with so many rounds. -/
def walkLoop (kindOf : Value → Text) (body rounds : Nat) (scope : Scope) : Option Outcome :=
  loop "i".toList (fun scope => indexIsBelow.eval kindOf scope)
    (fun scope => visit.run kindOf body scope) rounds scope

section

variable {segment : Text} {segments : List Text} (body rounds : Nat)

theorem length_of_drop (hleft : path.drop index = segment :: segments) :
    path.length = index + segments.length + 1 := by
  have hlength := congrArg List.length hleft
  rw [List.length_drop, List.length_cons] at hlength
  omega

theorem getElem?_of_drop (hleft : path.drop index = segment :: segments) :
    path[index]? = some segment := by
  rw [← List.head?_drop, hleft, List.head?_cons]

theorem eval_indexIsBelow (h : scope.At path index node)
    (hleft : path.drop index = segment :: segments) :
    indexIsBelow.eval kindOf scope = some (ofBool true) := by
  have hindex : index < path.length := by
    rw [length_of_drop hleft]
    omega
  rw [indexIsBelow, Expr.eval_binary kindOf (eval_indexVar h) (eval_pathLength h)]
  show some (ofBool (decide ((index : Int) < path.length))) = _
  rw [decide_eq_true (Int.ofNat_lt.2 hindex)]

theorem walkLoop_of_no_container (hkind : TellsContainers kindOf) (h : scope.At path index node)
    (hleft : path.drop index = segment :: segments) (hnode : node.container? = none) :
    walkLoop kindOf body (rounds + 1) scope =
      some (.returned (ofBool (node.any fun node => node.ownsPath (segment :: segments)))) := by
  rw [ownsPath_of_no_container hnode]
  exact loop_of_returned rounds (eval_indexIsBelow h hleft)
    (run_visit_of_no_container body hkind h hnode)

theorem walkLoop_of_last (hkind : TellsContainers kindOf) (h : scope.At path index node)
    {container : Json} (hleft : path.drop index = [segment])
    (hnode : node.container? = some container) :
    walkLoop kindOf body (rounds + 1) scope =
      some (.returned (ofBool (container.property? segment).isSome)) := by
  have hlast : index + 1 = path.length := (length_of_drop hleft).symm
  have hvisit := run_visit_of_container body hkind h hnode (getElem?_of_drop hleft)
  rw [if_pos hlast] at hvisit
  exact loop_of_returned rounds (eval_indexIsBelow h hleft) hvisit

theorem walkLoop_of_next (hkind : TellsContainers kindOf) (h : scope.At path index node)
    {container : Json} {next : Text} (hleft : path.drop index = segment :: next :: segments)
    (hnode : node.container? = some container) :
    ∃ later : Scope, later.At path (index + 1) (container.property? segment) ∧
      walkLoop kindOf body (rounds + 1) scope = walkLoop kindOf body rounds later := by
  have hnext : index + 1 ≠ path.length := by
    have hlength := length_of_drop hleft
    rw [List.length_cons] at hlength
    omega
  have hvisit := run_visit_of_container body hkind h hnode (getElem?_of_drop hleft)
  rw [if_neg hnext] at hvisit
  exact ⟨_, h.advance _, loop_of_next rounds
    (eval_indexIsBelow h hleft) hvisit h.index⟩

end

/-- Induction on the segments that are left; each takes one round. -/
theorem walkLoop_eq (hkind : TellsContainers kindOf) {segment : Text} {segments : List Text}
    {rounds : Nat} (body : Nat) (h : scope.At path index node)
    (hleft : path.drop index = segment :: segments) (hrounds : segments.length < rounds) :
    walkLoop kindOf body rounds scope =
      some (.returned (ofBool (node.any fun node => node.ownsPath (segment :: segments)))) := by
  induction segments generalizing segment index node scope rounds with
  | nil =>
      obtain ⟨rounds, rfl⟩ := Nat.exists_eq_add_of_lt hrounds
      cases hnode : node.container? with
      | none => exact walkLoop_of_no_container body _ hkind h hleft hnode
      | some container =>
          rw [walkLoop_of_last body _ hkind h hleft hnode]
          obtain rfl := Value.eq_some_of_container? hnode
          rw [Option.any_some, Json.ownsPath]
          simp only [Json.ownsPath, Option.any_true]
  | cons next segments ih =>
      obtain ⟨rounds, rfl⟩ := Nat.exists_eq_add_of_lt hrounds
      cases hnode : node.container? with
      | none => exact walkLoop_of_no_container body _ hkind h hleft hnode
      | some container =>
          obtain ⟨later, hlater, hloop⟩ := walkLoop_of_next body _ hkind h hleft hnode
          have hrest : path.drop (index + 1) = next :: segments := by
            rw [← List.tail_drop, hleft, List.tail_cons]
          obtain rfl := Value.eq_some_of_container? hnode
          refine hloop.trans (ih hlater hrest ?_)
          rw [List.length_cons]
          omega

/-- The helper, run on data and the segments of a path that has more than its root. -/
theorem call_walk (hkind : TellsContainers kindOf) (data : Json) (root : Text)
    {segments : List Text} (hne : segments ≠ []) {rounds : Nat}
    (hrounds : segments.length ≤ rounds) :
    walk.call kindOf rounds [some data, some (.array ((root :: segments).map .string))] =
      some (ofBool (data.ownsPath segments)) := by
  cases segments with
  | nil => exact absurd rfl hne
  | cons segment segments =>
      have hstart : Scope.At
          ((walk.scope [some data, some (.array ((root :: segment :: segments).map .string))]).set
            "i".toList (some (.int (1 : Nat))))
          (root :: segment :: segments) 1 (some data) :=
        ⟨rfl, rfl, rfl⟩
      have hloop := walkLoop_eq hkind rounds hstart rfl hrounds
      exact Function.call_of_returned kindOf (Stmt.run_seq_of_returned kindOf _ hloop)

end

/-! ## The code of the filter -/

theorem le_toNat_of_isSegmentChar {c : Char} (h : Filter.isSegmentChar c = true) :
    0x20 ≤ c.toNat := by
  rw [Filter.isSegmentChar, Bool.or_eq_true, beq_iff_eq] at h
  rcases h with hword | rfl
  · by_contra hlt
    rw [isWord_of_ascii (by omega)] at hword
    have hrange := toNat_of_isAsciiWord hword
    omega
  · decide

/-- The characters of paths need no escapes in a string literal. -/
theorem escapeChar_of_path {c : Char} (h : Filter.isSegmentChar c = true ∨ c = '.') :
    Json.escapeChar c = [c] := by
  have hne : ∀ d, Filter.isSegmentChar d = false ∧ d ≠ '.' → c ≠ d := by
    rintro d ⟨hsegment, hdot⟩ rfl
    rcases h with h | rfl
    · rw [hsegment] at h
      cases h
    · exact hdot rfl
  have hcontrol : ¬ c.toNat < 0x20 := by
    rcases h with h | rfl
    · exact Nat.not_lt.2 (le_toNat_of_isSegmentChar h)
    · decide
  rw [Json.escapeChar, if_neg (hne _ (by decide)), if_neg (hne _ (by decide)),
    if_neg (hne _ (by decide)), if_neg (hne _ (by decide)), if_neg (hne _ (by decide)),
    if_neg (hne _ (by decide)), if_neg (hne _ (by decide)), if_neg hcontrol]

theorem render_segment {operand root segment : Text} {segments : List Text}
    (hpath : Filter.dottedPath? operand = some (root, segments)) (h : segment ∈ root :: segments) :
    (Json.string segment).render = Filter.quoteSegment segment := by
  obtain ⟨hchars, hsegments⟩ := Filter.dottedPath?_chars hpath
  have hplain : segment.flatMap Json.escapeChar = segment := by
    have hescape : ∀ c ∈ segment, Json.escapeChar c = [c] := fun c hc =>
      escapeChar_of_path (hchars c (hsegments segment h c hc))
    rw [List.flatMap_congr hescape, List.flatMap_singleton']
  have hrender : (Json.string segment).render = Json.quote segment := rfl
  rw [hrender, Json.quote, hplain, Filter.quoteSegment]
  rfl

def typeName : Value → Text
  | none => "undefined".toList
  | some .null => "null".toList
  | some (.bool _) => "boolean".toList
  | some (.number _) => "number".toList
  | some (.string _) => "string".toList
  | some (.array _) => "object".toList
  | some (.object _) => "object".toList

theorem tellsContainers_typeName : TellsContainers typeName := by
  rintro (_ | _ | value | value | value | items | fields)
  · exact iff_of_false (show "undefined".toList ≠ "object".toList by decide) Bool.false_ne_true
  · exact iff_of_false (show "null".toList ≠ "object".toList by decide) Bool.false_ne_true
  · exact iff_of_false (show "boolean".toList ≠ "object".toList by decide) Bool.false_ne_true
  · exact iff_of_false (show "number".toList ≠ "object".toList by decide) Bool.false_ne_true
  · exact iff_of_false (show "string".toList ≠ "object".toList by decide) Bool.false_ne_true
  · exact iff_of_true rfl rfl
  · exact iff_of_true rfl rfl

/-- The helper and the test on data.  The code of the filter for a dotted path that has more
than its root is the call of the helper on the root and the segments.  Whatever function tells
containers, the helper has a result for all data, and it is that of the test exactly if the
path is not misread: if it does not end with the length of an array, and does not come to an
item of an array by an index that is not spelled as its numeral. -/
theorem isset_iff_not_misread {kindOf : Value → Text} (hkind : TellsContainers kindOf)
    (data : Json) {path root : Text} {segments : List Text}
    (hpath : Filter.dottedPath? path = some (root, segments)) (hne : segments ≠ []) :
    Filter.issetCode path =
        walk.render ++ "(".toList ++ root ++ ", [".toList ++
          List.intercalate ", ".toList
            ((root :: segments).map fun segment => (Json.string segment).render) ++
          "])".toList ∧
      ∃ result : Bool,
        (∀ rounds, segments.length ≤ rounds →
          walk.call kindOf rounds [some data, some (.array ((root :: segments).map .string))] =
            some (some (.bool result))) ∧
        (data.isset path = result ↔ ¬ data.Misread segments) := by
  refine ⟨?_, data.ownsPath segments, fun rounds => call_walk hkind data root hne, ?_⟩
  · have hliterals : (root :: segments).map (fun segment => (Json.string segment).render) =
        (root :: segments).map Filter.quoteSegment :=
      List.map_congr_left fun segment hsegment => render_segment hpath hsegment
    simp only [Filter.issetCode, Filter.trim_of_dottedPath? hpath, hpath, render_walk, hliterals]
  · have hfields : Text.fields '.' path = (root, segments) := by
      simp only [Filter.dottedPath?] at hpath
      split at hpath
      · exact Option.some.inj hpath
      · cases hpath
    have hisset : data.isset path = data.hasPath segments := by
      rw [Json.isset, hfields]
      cases segments with
      | nil => exact absurd rfl hne
      | cons segment segments => rfl
    rw [hisset, Json.hasPath_eq_ownsPath_iff]

/-- The second item by an index with a leading zero: the two differ. -/
theorem isset_iff_not_misread_of_padded_index :
    let items : List Json := [.null, .object [("id".toList, .int 7)]]
    let data : Json := .object [("rows".toList, .array items)]
    let segments := ["rows".toList, "01".toList, "id".toList]
    TellsContainers typeName ∧
      Filter.dottedPath? "root.rows.01.id".toList = some ("root".toList, segments) ∧
      segments ≠ [] ∧ data.Misread segments ∧
      ∃ result : Bool,
        walk.call typeName 3
            [some data, some (.array (("root".toList :: segments).map .string))] =
          some (some (.bool result)) ∧
        data.isset "root.rows.01.id".toList ≠ result := by
  intro items data segments
  have hpath : Filter.dottedPath? "root.rows.01.id".toList = some ("root".toList, segments) := by
    decide +kernel
  have hpadded : (Json.array items).Misread ["01".toList, "id".toList] := by
    have hindex : Json.index? "01".toList = some 1 := by decide +kernel
    have hrest : (Json.object [("id".toList, .int 7)]).hasPath ["id".toList] = true := by
      decide +kernel
    exact .padded hindex (by decide +kernel) rfl hrest
  have hmisread : data.Misread segments :=
    .child (Table.valueIn?_cons_self _ _ _) (Table.valueIn?_cons_self _ _ _) hpadded
  obtain ⟨-, result, hresult, hiff⟩ :=
    isset_iff_not_misread tellsContainers_typeName data hpath (List.cons_ne_nil _ _)
  exact ⟨tellsContainers_typeName, hpath, List.cons_ne_nil _ _, hmisread, result,
    hresult 3 (Nat.le_refl 3), fun heq => hiff.1 heq hmisread⟩

/-- An array owns its length, which is no path of the data. -/
theorem isset_ne_helper_of_array_length :
    TellsContainers typeName ∧
      Filter.dottedPath? "root.length".toList = some ("root".toList, ["length".toList]) ∧
      (Json.array []).isset "root.length".toList = false ∧
      ∀ rounds, 1 ≤ rounds →
        walk.call typeName rounds
            [some (.array []), some (.array (["root".toList, "length".toList].map .string))] =
          some (some (.bool true)) := by
  refine ⟨tellsContainers_typeName, by decide +kernel, by decide +kernel, ?_⟩
  intro rounds hrounds
  exact call_walk tellsContainers_typeName (.array []) "root".toList (List.cons_ne_nil _ _) hrounds

end TagTemplate.Script
