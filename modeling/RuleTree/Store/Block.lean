import RuleTree.Store

/-!
# Rule blocks

The text of one rule set, and pictures of whole trees.

* `Store.properties`: the lines of the custom properties, if the tree's options ask for them;
* `Store.block?`: the block of a rule set; a rule set without text has none;
* `Tree`, `Store.tree`: a rule set with everything below it, apart from where it is kept;
* `scopePicture`, `Tree.fields`, `Tree.picture`: what is told of a scope and of a tree;
* `RuleSet.label`: a rule set as diagnostics show it.

A selector that still awaits a target takes no text, and no custom properties either.
-/

namespace RuleTree

/-- One custom property on a line of its own. -/
def propertyLine (name text : String) : String := "--" ++ name ++ ": " ++ text ++ ";\n"

/-- The lines of a scope. -/
def scopeLines (scope : Table String) : String :=
  String.join (scope.entries.map fun e => propertyLine e.1 e.2)

/-- A block: the selector, and the body between braces. -/
def blockText (selector body : String) : String := selector ++ " \x7b\n" ++ body ++ "\x7d\n"

namespace RuleSet

/-- What a rule set writes before its text when custom properties are asked for. -/
def properties (r : RuleSet) (emit : Bool) : Except Error String :=
  if emit && !r.scope.entries.isEmpty then do
    if ← incomplete? r.selector then return "" else return scopeLines r.scope
  else .ok ""

/-- The body of a rule set. -/
def body (r : RuleSet) (emit : Bool) : Except Error String :=
  (r.properties emit).map (· ++ r.text)

/-- The block of a rule set; none if its body is empty. -/
def block? (r : RuleSet) (look : Appearance) (emit : Bool) : Except Error (Option String) := do
  let body ← r.body emit
  if body = "" then return none
  else
    let selector ← r.selector.spelled look
    return some (blockText selector body)

/-- The scope as a dictionary. -/
def scopeDatum (r : RuleSet) : Datum :=
  .dict (r.scope.entries.map fun e => (.text e.1, .text e.2))

/-- A rule set as diagnostics show it. -/
def label (r : RuleSet) (look : Appearance) : Except Error String := do
  let selector ← r.selector.label look
  let scope ← r.scopeDatum.label look
  return "StyleSheetFactory(" ++ selector ++ ", scope=" ++ scope ++ ", children=" ++
    toString r.children.length ++ ")"

end RuleSet

/-- A rule set with everything below it. -/
inductive Tree
  | node (selector text : String) (scope : List (String × String)) (incomplete : Bool)
      (children : List Tree)

/-- What is told of a scope: pairs of name and text. -/
def scopePicture (scope : List (String × String)) : Picture :=
  .list (scope.map fun e => .list [.text e.1, .text e.2])

namespace Tree

mutual

/-- What is told of a tree, field by field. -/
def fields : Tree → List (String × Picture)
  | .node selector text scope incomplete children =>
    [("selector", .text selector), ("value", .text text), ("scope", scopePicture scope),
     ("incomplete", .bool incomplete), ("children", .list (pictures children))]

/-- What is told of a list of trees. -/
def pictures : List Tree → List Picture
  | [] => []
  | t :: rest => .record (fields t) :: pictures rest

end

/-- What is told of a tree. -/
def picture (t : Tree) : Picture := .record t.fields

end Tree

namespace Store

/-- Whether the custom properties of a rule set are written. -/
def emits (s : Store) (n : NodeId) : Bool := (s.optionsOf n).emitCustomProperties.truthy

/-- The block of a rule set. -/
def block? (s : Store) (look : Appearance) (n : NodeId) : Except Error (Option String) :=
  (s.get n).block? look (s.emits n)

/-- The text of a selector that must be text. -/
def selectorText : Datum → Except Error String
  | .text s => .ok s
  | _ => .error .selectorNotText

/-- A rule set with everything below it. All selectors must be text. -/
def tree (s : Store) (n : NodeId) : Except Error Tree := do
  let r := s.get n
  let selector ← selectorText r.selector
  let children ← r.children.attach.mapM fun ⟨c, _⟩ => tree s c
  return .node selector r.text r.scope.entries (incomplete selector) children
termination_by s.forest.size - n
decreasing_by
  rename_i h
  exact Nat.sub_lt_sub_left
    (Nat.lt_trans (Forest.lt_of_mem_children h) (Forest.lt_size_of_mem_children h))
    (Forest.lt_of_mem_children h)

end Store

end RuleTree
