import RuleTree.Session.Generate
import RuleTree.Session.Liveness

/-!
# Reading

* `Session.css`: the text of a tree;
* `Session.readNode`, `Session.read`: what can be read of a rule set, and of anything else;
* `Session.listOptions`: the options of a rule set, the callable ones tried on a sample kind;
* `Session.iterate`, `Session.advance`: an iteration begun, and advanced in place.

Reading a rule set changes nothing unless a generator among its options is tried, and advancing an
iteration changes nothing but the iteration.
-/

namespace RuleTree

namespace Session

/-- The text of a tree. -/
def css (σ : Session) (n : NodeId) : Except Error String := σ.store.css σ.hostName n

/-- A child by position; negative positions count from the end. -/
def childAt (children : List NodeId) (index : Int) : Option NodeId :=
  if 0 ≤ index then children[index.toNat]?
  else if -index ≤ children.length then children[children.length - (-index).toNat]?
  else none

/-- List options of a rule set, after some that are listed already. Each is looked up at its turn; a
callable one is tried on the sample kind, which may change those that follow. -/
def probe (σ : Session) (n : NodeId) (listed : List (String × Picture)) : List String → Start
  | [] => .answer σ (.ok (.options listed))
  | name :: rest =>
    let value := ((σ.store.optionsOf n).get? name).getD .null
    if σ.callable value then
      match σ.apply value OptionSet.sample with
      | .gives σ d =>
        match d.picture σ.views with
        | .error e => .refuse σ e
        | .ok given => probe σ n (listed ++ [(name, OptionSet.probedPicture given)]) rest
      | .fails e => .refuse σ e
      | .runs body => .enter σ (.probe n value listed name rest) body
    else
      match value.picture σ.views with
      | .error e => .refuse σ e
      | .ok p => probe σ n (listed ++ [(name, p)]) rest

/-- List the options of a rule set in the order of their names. Options that are set meanwhile are
not listed unless they were there before. -/
def listOptions (σ : Session) (n : NodeId) : Start := σ.probe n [] (σ.store.optionsOf n).names

/-- Read something of a rule set. -/
def readNode (σ : Session) (n : NodeId) (facet : Facet) : Start :=
  let r := σ.store.get n
  match facet with
  | .selector => .answer σ (.ok (.value r.selector))
  | .text => .answer σ (.ok (.text r.text))
  | .children => .answer σ (.ok (.value (.nodes r.children)))
  | .parent => .answer σ (.ok (.node? (σ.parent? n)))
  | .host => .answer σ (.ok (.value (σ.hostOf n)))
  | .incomplete => .answer σ ((incomplete? r.selector).map .bool)
  | .scope => .answer σ (.ok (.scope r.scope.entries))
  | .options => σ.listOptions n
  | .dump => .answer σ ((σ.store.tree n).map .tree)
  | .css => .answer σ ((σ.css n).map .text)
  | .spelling => .answer σ ((σ.css n).map .text)
  | .label => .answer σ ((σ.appearance.node n).map .text)
  | .blocks =>
    .answer σ ((σ.appearance.blocks n).map fun texts => .value (.list (texts.map .text)))
  | .itself => .answer σ (.ok (.value (.node n)))
  | .child index =>
    match childAt r.children index with
    | some c => .answer σ (.ok (.value (.node c)))
    | none => .refuse σ .noChild

/-- Read something of what a statement acts on. Of anything but a rule set there is only the value
itself, and how it looks. -/
def read (σ : Session) (subject : Datum) (facet : Facet) : Start :=
  match subject with
  | .node n => σ.readNode n facet
  | d =>
    match facet with
    | .itself => .answer σ (.ok (.value d))
    | .label => .answer σ ((d.label σ.appearance).map .text)
    | .spelling => .answer σ ((d.spelled σ.appearance).map .text)
    | _ => .refuse σ .noTarget

/-- Begin to iterate over what a statement acts on. Only rule sets have blocks. -/
def iterate (σ : Session) (subject : Datum) (walk : Walk) (name : String) : Start :=
  let begun : Except Error Iteration := match walk, subject with
    | .items, d => Iteration.of? d
    | .blocks, .node n => Iteration.of? (.node n)
    | .blocks, _ => .error .noTarget
  match begun with
  | .error e => .refuse σ e
  | .ok i => .done { σ with iterations := σ.iterations.insert name i } (.ok .nothing)

/-- Whatever it is said to be over, an iteration over a rule set is one over its blocks. -/
theorem iterate_node (σ : Session) (n : NodeId) (walk : Walk) (name : String) :
    σ.iterate (.node n) walk name =
      .done { σ with iterations := σ.iterations.insert name (.blocks (.start n)) } (.ok .nothing) := by
  cases walk <;> rfl

/-- Take what an iteration yields next. -/
def advance (σ : Session) (name : String) (count : Nat) : Start :=
  match σ.iterations.find? name with
  | none => .refuse σ .noTarget
  | some i =>
    let (taken, i) := i.take σ.store σ.appearance count
    .done { σ with iterations := σ.iterations.insert name i }
      (taken.map fun ds => .value (.list ds))

end Session

end RuleTree
