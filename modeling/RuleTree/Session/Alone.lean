import RuleTree.Session.Eval

/-!
# Outside of any script

What can be worked out where there are no hosts, no generators and no earlier results.

* `Session.Eval.alone`: what a computation comes to in a session in which nothing has happened;
* `Expr.alone`: the value of an expression;
* `OptionSet.listing`: the options in the order of their names, and what is told of each.
-/

namespace RuleTree

/-- What a computation comes to in a session in which nothing has happened. -/
def Session.Eval.alone {α : Type} (computation : Session.Eval α) : Except Error α :=
  (computation (.start .empty false)).map Prod.fst

/-- The value of an expression outside of any script. -/
def Expr.alone (e : Expr) : Except Error Datum := (Session.eval e).alone

namespace OptionSet

/-- What is told of an option. A naming rule is tried on the sample kind, and so is a kind, which
takes no arguments. -/
def listed : Datum → Except Error Picture
  | .naming rule _ => do
    let given ← (Session.className rule (some sampleName)).alone
    return probedPicture (← given.picture .plain)
  | .kind _ _ => .error .badArguments
  | d => d.picture .plain

/-- The options in the order of their names, and what is told of each. -/
def listing (o : OptionSet) : Except Error (List (String × Picture)) :=
  o.entries.mapM fun e => (listed e.2).map (e.1, ·)

end OptionSet

end RuleTree
