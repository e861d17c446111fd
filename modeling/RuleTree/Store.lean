import RuleTree.Forest
import RuleTree.OptionSet
import RuleTree.Declaration
import RuleTree.Selector.Combinator

/-!
# The store

A forest together with the option sets of its trees.

* `Store`: the rule sets and the option sets made so far;
* `Store.plant`, `Store.sprout`: a new root with options of its own, a new rule set under a parent
  whose options it shares;
* `Store.links`: the objects that a rule set keeps alive;
* `Store.write`, `Store.assign`, `Store.define`: what is put into a rule set;
* `Store.clearForReset`: what a reset takes out of it, if the tree's options say so;
* `Store.setOption`: an option changed for a whole tree.

A write looks at the selector before it looks at what is written.
-/

namespace RuleTree

/-- Rule sets and their options. -/
structure Store where
  forest : Forest
  options : Array OptionSet

namespace Store

/-- The store with nothing in it. -/
def empty : Store := ⟨.empty, #[]⟩

instance : Inhabited Store := ⟨empty⟩

/-- The number that the next rule set will have. -/
def next (s : Store) : NodeId := s.forest.size

/-- A rule set by number. -/
def get (s : Store) (n : NodeId) : RuleSet := s.forest.get n

/-- The options of a rule set, which it shares with its whole tree. -/
def optionsOf (s : Store) (n : NodeId) : OptionSet := s.options[(s.get n).options]?.getD default

/-- Make a root with options of its own. -/
def plant (s : Store) (selector : Datum) (host : Option Datum) (o : OptionSet) : Store where
  forest := s.forest.add selector none host s.options.size
  options := s.options.push o

/-- Make a rule set under a parent. The parent does not list it yet. -/
def sprout (s : Store) (parent : NodeId) (selector : Datum) (host : Option Datum) : Store :=
  { s with forest := s.forest.add selector (some parent) host (s.get parent).options }

/-- Append a rule set to the children of its parent. -/
def attach (s : Store) (c : NodeId) : Store := { s with forest := s.forest.attach c }

/-- The objects that a rule set keeps alive. -/
def links (s : Store) (n : NodeId) : List Identity := (s.get n).links ++ (s.optionsOf n).links

/-- Append rule text. The selector must not await a target, and what is written must be text. -/
def write (s : Store) (n : NodeId) (d : Datum) : Except Error Store :=
  match (s.get n).selector, d with
  | .text selector, .text t =>
    if incomplete selector then .error (.incompleteSelector selector)
    else .ok { s with forest := s.forest.append n t }
  | .text selector, _ =>
    if incomplete selector then .error (.incompleteSelector selector) else .error .notAppendable
  | _, _ => .error .selectorNotText

/-- Append declarations. A keyword may not be named like the mapping's parameter. -/
def assign (s : Store) (look : Appearance) (n : NodeId) (properties : Datum)
    (keywords : Table Datum) : Except Error Store := do
  let lines ← declarationsOf look (some properties) keywords
  s.write n (.text lines)

/-- Define a custom property by the text of a value. -/
def define (s : Store) (look : Appearance) (n : NodeId) (name : String) (d : Datum) :
    Except Error Store :=
  (propertyValue look d).map fun text => { s with forest := s.forest.define n name text }

/-- Whether a reset empties a rule set first. -/
def clearsOnReset (s : Store) (n : NodeId) : Bool := (s.optionsOf n).clearOnReset.truthy

/-- Empty a rule set if its tree is cleared on reset. -/
def clearForReset (s : Store) (n : NodeId) : Store :=
  if s.clearsOnReset n then { s with forest := s.forest.clear n } else s

/-- Set an option for the whole tree of a rule set. -/
def setOption (s : Store) (n : NodeId) (name : String) (d : Datum) : Store :=
  { s with options := s.options.modify (s.get n).options (·.set name d) }

@[simp] theorem next_plant (s : Store) (selector : Datum) (host : Option Datum)
    (o : OptionSet) : (s.plant selector host o).next = s.next + 1 := Forest.size_add ..

@[simp] theorem next_sprout (s : Store) (parent : NodeId) (selector : Datum)
    (host : Option Datum) : (s.sprout parent selector host).next = s.next + 1 :=
  Forest.size_add ..

theorem write_text (s : Store) (n : NodeId) (selector t : String)
    (h : (s.get n).selector = .text selector) :
    s.write n (.text t) =
      if incomplete selector then .error (.incompleteSelector selector)
      else .ok { s with forest := s.forest.append n t } := by
  unfold write
  rw [h]

end Store

end RuleTree
