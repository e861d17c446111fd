import RuleTree.Machine

/-!
# Outcomes

What is told of a script that has run.

* `Outcome`: the record of its statements, the rule sets still held by handles, and the log if one
  was kept;
* `Machine.outcome`: the outcome of a state;
* `Script.run?`: the last state of a script, within a bound on the number of steps.
-/

namespace RuleTree

/-- What is told of a script. -/
structure Outcome where
  trace : List TraceEntry
  trees : List (String × Tree)
  log : Option (List LogRecord)

/-- The rule sets held by handles, in the order of the names, as trees. -/
def Session.heldTrees (σ : Session) : Except Error (List (String × Tree)) :=
  (σ.handles.entries.mergeSort fun a b => decide (a.1 ≤ b.1)).mapM fun e =>
    (σ.store.tree e.2).map (e.1, ·)

/-- The outcome of a state. -/
def Machine.outcome (m : Machine) : Except Error Outcome :=
  m.session.heldTrees.map fun trees =>
    ⟨m.session.trace.toList, trees, m.session.log.map Array.toList⟩

/-- The last state of a script; none if the bound on the number of steps is too small. -/
def Script.run? (s : Script) (bound : Nat) : Option Machine :=
  let m := Machine.run bound (.load s)
  if m.finished then some m else none

end RuleTree
