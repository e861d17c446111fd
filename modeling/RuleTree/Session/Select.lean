import RuleTree.Selector.Method
import RuleTree.Session.Generate

/-!
# Selecting

* `Session.selectFrom`, `Session.select`: select nested rules by a fragment;
* `Session.selectBy`: the same by the fragment that a method makes of an argument;
* `Session.selectNamed`, `Session.selectKind`: the same by a class name, and by the one that the
  tree's naming option gives to a kind;
* `Session.callMethod`: a selection method called by name.

Every method comes down to `Session.select` on its fragment. A class name that was worked out is
kept alive besides.
-/

namespace RuleTree

namespace Session

/-- Select nested rules by a fragment, which may come from a class name. Without a generator that
only gives the fragment back. Whether the fragment goes together with the selector is checked before
the generator. -/
def selectFrom (σ : Session) (n : NodeId) (className : Option Datum) (fragment : Datum)
    (generator : Option Datum) : Start :=
  match generator with
  | none => .answer σ (.ok (.value fragment))
  | some generator =>
    if generator.isNull then .answer σ (.ok (.value fragment))
    else match (σ.store.get n).selector.plus σ.stamps fragment with
      | .error e => .refuse σ e
      | .ok selector =>
        if σ.callable generator then
          let child := σ.store.next
          let σ := { σ with stamps := σ.stamps + 1 }
          σ.fill (σ.store.sprout n selector none) child (.select child fragment className) generator
        else .refuse σ .missingGenerator

/-- Select nested rules by a fragment. -/
def select (σ : Session) (n : NodeId) (fragment : Datum) (generator : Option Datum) : Start :=
  σ.selectFrom n none fragment generator

/-- Select nested rules by the fragment that a method makes of an argument. -/
def selectBy (σ : Session) (n : NodeId) (m : Method) (argument : Datum)
    (generator : Option Datum) : Start :=
  match m.fragmentOf σ.appearance argument with
  | .error e => .refuse σ e
  | .ok fragment => σ.select n fragment generator

/-- Select nested rules by a class name, which stays alive while they are filled. -/
def selectNamed (σ : Session) (n : NodeId) (className : Datum) (generator : Option Datum) :
    Start :=
  match Method.kind.fragmentOf σ.appearance className with
  | .error e => .refuse σ e
  | .ok fragment => σ.selectFrom n (some className) fragment generator

/-- Select a kind of element. The naming option of the tree is called to give its class name, which
may run statements first. -/
def selectKind (σ : Session) (n : NodeId) (kind : Datum) (generator : Option Datum) : Start :=
  let callee := (σ.store.optionsOf n).className
  match σ.apply callee kind with
  | .gives σ className => σ.selectNamed n className generator
  | .fails e => .refuse σ e
  | .runs body => .enter σ (.name n kind generator callee) body

/-- Call a selection method by name. -/
def callMethod (σ : Session) (n : NodeId) (name : String) (argument generator : Option Datum) :
    Start :=
  match Method.named name with
  | .error e => .refuse σ e
  | .ok m =>
    match m.bind argument generator with
    | .error e => .refuse σ e
    | .ok (argument, generator) =>
      let d := argument.getD .null
      if m = .kind then σ.selectKind n d generator else σ.selectBy n m d generator

end Session

end RuleTree
