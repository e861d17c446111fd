import RuleTree.Store.Cursor

/-!
# Iterations

What goes on yielding one thing after another: the blocks of a tree, or the items of a value.

* `Iteration`: the iterations; one over a value holds the value as well as what is left of it;
* `Iteration.of?`: an iteration over a value;
* `Iteration.next`: what comes next, and the iteration after it;
* `Iteration.take`: what comes next several times;
* `Iteration.identities`: the objects that an iteration keeps alive;
* `Iteration.next_ended`, `Iteration.take_ended`: what has ended has ended for good.

A value is let go of when its iteration finds nothing left, not when it yields the last item.
-/

namespace RuleTree

/-- Something that is iterated over. -/
inductive Iteration
  | ended
  | blocks (cursor : Cursor)
  | items (source : Datum) (rest : List Datum)

namespace Iteration

/-- An iteration over a value: over the blocks of a rule set, or else over what walking over the
value yields. -/
def of? : Datum → Except Error Iteration
  | .node n => .ok (.blocks (.start n))
  | d =>
    match d.items? with
    | some found => .ok (.items d found)
    | none => .error .notIterable

/-- What comes next, if anything is left, and the iteration after it. One that fails has ended. -/
def next (s : Store) (look : Appearance) : Iteration → Except Error (Option Datum) × Iteration
  | ended => (.ok none, ended)
  | blocks c =>
    match c.next s look with
    | .error e => (.error e, ended)
    | .ok (none, _) => (.ok none, ended)
    | .ok (some block, c) => (.ok (some (.text block)), blocks c)
  | items _ [] => (.ok none, ended)
  | items source (d :: rest) => (.ok (some d), items source rest)

/-- What comes next so many times, with nothing in the place of what is not left, and the iteration
after it. -/
def take (s : Store) (look : Appearance) : Nat → Iteration → Except Error (List Datum) × Iteration
  | 0, i => (.ok [], i)
  | count + 1, i =>
    match i.next s look with
    | (.error e, i) => (.error e, i)
    | (.ok d, i) =>
      let (rest, i) := take s look count i
      (rest.map (d.getD .null :: ·), i)

/-- The objects that an iteration keeps alive. -/
def identities : Iteration → List Identity
  | ended => []
  | blocks c => c.nodes.map .node
  | items source _ => source.identities

@[simp] theorem next_ended (s : Store) (look : Appearance) :
    next s look ended = (.ok none, ended) := rfl

theorem take_ended (s : Store) (look : Appearance) (count : Nat) :
    take s look count ended = (.ok (List.replicate count .null), ended) := by
  induction count with
  | zero => rfl
  | succ count ih =>
    simp only [take, next_ended, ih, List.replicate_succ]
    rfl

end Iteration

end RuleTree
