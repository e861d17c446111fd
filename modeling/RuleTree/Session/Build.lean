import RuleTree.Session.Generate

/-!
# Building

* `Session.buildRoot`: a root without parent;
* `Session.build`: a tree, by the arguments of the public call;
* `Session.construct`: a single rule set, under a parent or as a root.

What is wrong with the arguments is found out before the generator, and that before the options.
-/

namespace RuleTree

namespace Session

/-- The host that a rule set refers to, if one is given. -/
def givenHost (host : Datum) : Option Datum := if host.isNull then none else some host

/-- Named values as a dictionary. -/
def optionsDatum (options : Table Datum) : Datum :=
  .dict (options.entries.map fun e => (.text e.1, e.2))

/-- Build a root. The generator is checked before the options. -/
def buildRoot (σ : Session) (selector host generator : Datum) (options : Table Datum)
    (purpose : NodeId → Purpose) : Start :=
  if σ.callable generator then
    match OptionSet.merge (optionsDatum options) with
    | .error e => .refuse σ e
    | .ok o =>
      let n := σ.store.next
      σ.fill (σ.store.plant selector (givenHost host) o) n (purpose n) generator
  else .refuse σ .missingGenerator

/-- The option that a host can be given in. -/
def hostOption : String := "host"

/-- Whether options carry one of some names. -/
def hasAny (options : Table Datum) (names : List String) : Bool := names.any options.contains

/-- Build a tree. The selector and the generator cannot be options as well, and neither can the host
if it is given by itself. -/
def build (σ : Session) (selector generator : Datum) (host : Option Datum) (options : Table Datum)
    (output : Output) : Start :=
  if hasAny options ["selector", "generate"] then .refuse σ .badArguments
  else if host.isSome && options.contains hostOption then .refuse σ .badArguments
  else
    let given := (host.orElse fun _ => options.find? hostOption).getD .null
    σ.buildRoot selector given generator (options.erase hostOption) fun n => .build n output

/-- Construct a rule set. Under a parent it shares the parent's options and no others are looked at;
the parent does not list it. -/
def construct (σ : Session) (selector generator host : Datum) (options : Table Datum)
    (parent : Option NodeId) : Start :=
  match parent with
  | none => σ.buildRoot selector host generator options fun n => .build n .node
  | some p =>
    if σ.callable generator then
      let n := σ.store.next
      σ.fill (σ.store.sprout p selector (givenHost host)) n (.build n .node) generator
    else .refuse σ .missingGenerator

end Session

end RuleTree
