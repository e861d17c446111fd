import RuleTree.OptionSet
import RuleTree.Script

/-!
# Calls in progress

A statement that runs a body of statements waits for it to end.

* `Output`: what a finished build is wanted for;
* `Purpose`: what the body is run for, and so what is to be done once it has ended;
* `Purpose.subject?`: what the body is run on;
* `Tag`: where the result of a statement belongs;
* `Call`: a waiting statement, what remains of its body, and what it keeps alive.

A body is usually run on a rule set, but generators also stand in for naming rules, and then are run
on whatever is to be named.
-/

namespace RuleTree

/-- What a finished build is wanted for: the rule set, or the text of its tree. -/
inductive Output
  | node
  | css
  deriving DecidableEq

/-- What a body of statements is run for. -/
inductive Purpose
  /-- to fill a rule set that is then attached to its parent; its fragment may come from a class
  name that was worked out before -/
  | select (child : NodeId) (fragment : Datum) (className : Option Datum)
  /-- to fill a rule set that stays by itself -/
  | build (node : NodeId) (output : Output)
  /-- to fill a rule set again, maybe as the style sheet kept in a registry -/
  | reset (node : NodeId) (registry : Option RegistryId) (output : Output)
  /-- to fill the first style sheet of a host -/
  | register (registry : RegistryId) (host : Identity) (node : NodeId) (output : Output)
  /-- to name a kind of element, by the callee, that is then selected on a rule set -/
  | name (node : NodeId) (kind : Datum) (generator : Option Datum) (callee : Datum)
  /-- to try an option of a rule set, the callee, on the sample kind, after some options that are
  listed and before others -/
  | probe (node : NodeId) (callee : Datum) (listed : List (String × Picture))
      (name : String) (rest : List String)
  /-- to catch what it raises -/
  | attempt

namespace Purpose

/-- What the body is run on. -/
def subject? : Purpose → Option Datum
  | select child _ _ => some (.node child)
  | build node _ => some (.node node)
  | reset node _ _ => some (.node node)
  | register _ _ node _ => some (.node node)
  | name _ kind _ _ => some kind
  | probe _ _ _ _ _ => some OptionSet.sample
  | attempt => none

/-- The registry that is at work. -/
def registry? : Purpose → Option RegistryId
  | reset _ registry _ => registry
  | register registry _ _ _ => some registry
  | _ => none

/-- The objects that the purpose keeps alive. The callee stays alive until its body has ended. -/
def links : Purpose → List Identity
  | select child fragment className =>
    .node child :: fragment.identities ++ className.toList.flatMap Datum.identities
  | build node _ => [.node node]
  | reset node _ _ => [.node node]
  | register _ host node _ => [host, .node node]
  | name node kind generator callee =>
    .node node :: kind.identities ++ generator.toList.flatMap Datum.identities
      ++ callee.identities
  | probe node callee _ _ _ => .node node :: callee.identities
  | attempt => []

end Purpose

/-- Where the result of a statement belongs. -/
structure Tag where
  path : Path
  handle : Option String
  saved : Option String

/-- A statement that waits for a body to end. Until then it keeps alive what it was passed. -/
structure Call where
  purpose : Purpose
  tag : Tag
  rest : List Stmt
  index : Nat
  held : List Identity

/-- The objects that a call in progress keeps alive. -/
def Call.links (c : Call) : List Identity := c.held ++ c.purpose.links

end RuleTree
