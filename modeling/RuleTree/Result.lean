import RuleTree.Error.Report
import RuleTree.OptionSet
import RuleTree.Script
import RuleTree.Store.Block

/-!
# Results

What statements come to.

* `Result`: what a statement answers if it succeeds;
* `Result.datum`: a result as a value that later statements can be passed;
* `Result.told`: what is told of a result;
* `TraceEntry`: the record of a completed statement, whether it succeeded or failed.
-/

namespace RuleTree

/-- What a statement answers. -/
inductive Result
  | value (d : Datum)
  | written (text : String)
  | scope (entries : List (String × String))
  | options (listed : List (String × Picture))
  | tree (t : Tree)
  | caught (e : Option Error)

/-- The result that is worth nothing. -/
def Result.nothing : Result := .value .null

/-- A truth value as a result. -/
def Result.bool (b : Bool) : Result := .value (.bool b)

/-- A text as a result. -/
def Result.text (s : String) : Result := .value (.text s)

/-- A rule set as a result, or nothing. -/
def Result.node? (n : Option NodeId) : Result := .value ((n.map Datum.node).getD .null)

/-- A result as a value: a value is itself, and anything else is what is told of it. -/
def Result.datum : Result → Datum
  | .value d => d
  | .written text => .answer [("value", .text text)]
  | .scope entries => .answer [("scope", scopePicture entries)]
  | .options listed => .answer [("options", OptionSet.listingPicture listed)]
  | .tree t => .answer t.fields
  | .caught e => .answer [("caught", (e.map Error.picture).getD .null)]

/-- What is told of a result. -/
def Result.told (views : Views) (r : Result) : Except Error Picture := r.datum.told views

@[simp] theorem Result.told_tree (views : Views) (t : Tree) :
    Result.told views (.tree t) = .ok t.picture := rfl

/-- The record of a completed statement: what was told of its result, or why it failed. -/
structure TraceEntry where
  path : Path
  told : Except Error Picture

end RuleTree
