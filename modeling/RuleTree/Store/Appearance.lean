import RuleTree.Store.Cursor

/-!
# How rule sets look

A selector may refer to other rule sets, so a rule set looks as those look that came before it.

* `Store.label`: a rule set as diagnostics show it;
* `Store.blocks`, `Store.css`: all blocks of a fresh iteration, and their text;
* `Store.appearance`: the appearance of all objects, given the names of the hosts;
* `Store.picture`, `Store.views`: what is told of a rule set, and of all objects.

A selector is there before its rule set is, so it can refer to older ones only.
-/

namespace RuleTree.Store

/-- A rule set as diagnostics show it. -/
def label (s : Store) (hostName : HostId → String) (n : NodeId) : Except Error String :=
  (s.get n).label
    ⟨hostName, fun m => if _h : m < n then label s hostName m else .ok "", fun _ => .ok []⟩
termination_by n

/-- All blocks of a tree. -/
def blocks (s : Store) (hostName : HostId → String) (n : NodeId) : Except Error (List String) :=
  Cursor.drain s
    ⟨hostName, s.label hostName, fun m => if _h : m < n then blocks s hostName m else .ok []⟩
    (.start n)
termination_by n

/-- The text of a tree. -/
def css (s : Store) (hostName : HostId → String) (n : NodeId) : Except Error String :=
  (s.blocks hostName n).map String.join

/-- The appearance of all objects. -/
def appearance (s : Store) (hostName : HostId → String) : Appearance :=
  ⟨hostName, s.label hostName, s.blocks hostName⟩

/-- What is told of a rule set: its selector as it stands. -/
def picture (s : Store) (hostName : HostId → String) (n : NodeId) : Except Error Picture :=
  ((s.get n).selector.picture
    ⟨hostName, fun m => if _h : m < n then picture s hostName m else .ok .null, .raw⟩).map
      Datum.nodePicture
termination_by n

/-- What is told of all objects. -/
def views (s : Store) (hostName : HostId → String) : Views :=
  ⟨hostName, s.picture hostName, .marked⟩

end RuleTree.Store
