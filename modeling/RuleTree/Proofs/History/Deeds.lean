import RuleTree.Proofs.History.Event
import RuleTree.Proofs.History.Frame
import RuleTree.Session.Begin

/-!
# What statements do to rule sets

* `Session.deeds`: the events of a statement that begins, read off what it says, what it acts on and
  whether that succeeds; the definitions before it are those of its parts;
* `Session.finishDeeds`: the events of a statement whose body has ended.

Nothing here looks at what becomes of the store. A call that fails may have done something before:
a rule set was made although its generator refused to run, or one was emptied.
-/

namespace RuleTree

namespace Session

/-! ### Generators -/

/-- What calling a value on a subject does: a host that can be called writes on a rule set. Lists of
statements do nothing before their first statement begins. -/
def callDeeds (σ : Session) (callee subject : Datum) : List Event :=
  match callee, subject with
  | .host h, .node n =>
    match σ.hostKind h, σ.store.write n (.text (σ.hostText h)) with
    | .callable, .ok _ => [.wrote n (σ.hostText h)]
    | _, _ => []
  | _, _ => []

/-- What making a rule set and running a generator on it does. -/
def fillDeeds (σ : Session) (made : Event) (store : Store) (n : NodeId) (generator : Datum) :
    List Event :=
  let σ := { σ with store }
  made :: match σ.record .generating (store.get n).selector with
    | .error _ => []
    | .ok σ => σ.callDeeds generator (.node n)

/-- What resetting a rule set does. A value that cannot be called does nothing; any other empties
the rule set if its tree says so, and is called. -/
def resetDeeds (σ : Session) (n : NodeId) (generator : Datum) : List Event :=
  if σ.callable generator then
    let cleared := if σ.store.clearsOnReset n then [.cleared n] else []
    let σ := { σ with store := σ.store.clearForReset n }
    cleared ++ match σ.record .resetting (σ.store.get n).selector with
      | .error _ => []
      | .ok σ => σ.callDeeds generator (.node n)
  else []

/-! ### Selections -/

/-- What selecting a fragment does: with a generator to call, a rule set is made for it. -/
def selectDeeds (σ : Session) (n : NodeId) (fragment : Datum) (generator : Option Datum) :
    List Event :=
  match generator with
  | none => []
  | some generator =>
    if generator.isNull then []
    else match (σ.store.get n).selector.plus σ.stamps fragment with
      | .error _ => []
      | .ok selector =>
        if σ.callable generator then
          { σ with stamps := σ.stamps + 1 }.fillDeeds
            (.sprouted σ.store.next n selector none (some fragment))
            (σ.store.sprout n selector none) σ.store.next generator
        else []

/-- What selecting by a class name does. -/
def namedDeeds (σ : Session) (n : NodeId) (className : Datum) (generator : Option Datum) :
    List Event :=
  match Method.kind.fragmentOf σ.appearance className with
  | .error _ => []
  | .ok fragment => σ.selectDeeds n fragment generator

/-- What selecting a kind of element does. A naming option is called first, on what it names. -/
def kindDeeds (σ : Session) (n : NodeId) (kind : Datum) (generator : Option Datum) : List Event :=
  let callee := (σ.store.optionsOf n).className
  match σ.apply callee kind with
  | .gives σ' className => σ.callDeeds callee kind ++ σ'.namedDeeds n className generator
  | .fails _ => []
  | .runs _ => []

/-- What a selection method does. -/
def methodDeeds (σ : Session) (n : NodeId) (name : String) (argument generator : Option Datum) :
    List Event :=
  match Method.named name with
  | .error _ => []
  | .ok m =>
    match m.bind argument generator with
    | .error _ => []
    | .ok (argument, generator) =>
      let d := argument.getD .null
      if m = .kind then σ.kindDeeds n d generator
      else match m.fragmentOf σ.appearance d with
        | .error _ => []
        | .ok fragment => σ.selectDeeds n fragment generator

/-! ### Building -/

/-- What building a root does. -/
def rootDeeds (σ : Session) (selector host generator : Datum) (options : Table Datum) :
    List Event :=
  if σ.callable generator then
    match OptionSet.merge (optionsDatum options) with
    | .error _ => []
    | .ok o =>
      σ.fillDeeds (.planted σ.store.next selector (givenHost host) o)
        (σ.store.plant selector (givenHost host) o) σ.store.next generator
  else []

/-- What building a tree does. -/
def buildDeeds (σ : Session) (selector generator : Datum) (host : Option Datum)
    (options : Table Datum) : List Event :=
  if hasAny options ["selector", "generate"] then []
  else if host.isSome && options.contains hostOption then []
  else
    let given := (host.orElse fun _ => options.find? hostOption).getD .null
    σ.rootDeeds selector given generator (options.erase hostOption)

/-- What constructing a rule set does. -/
def constructDeeds (σ : Session) (selector generator host : Datum) (options : Table Datum)
    (parent : Option NodeId) : List Event :=
  match parent with
  | none => σ.rootDeeds selector host generator options
  | some p =>
    if σ.callable generator then
      σ.fillDeeds (.sprouted σ.store.next p selector (givenHost host) none)
        (σ.store.sprout p selector (givenHost host)) σ.store.next generator
    else []

/-- What obtaining the style sheet of a host does: a sheet that is kept is reset, and otherwise a
new one is built. -/
def obtainDeeds (σ : Session) (registry : RegistryId) (host generator : Datum)
    (options : Table Datum) : List Event :=
  if hasAny options [hostOption, "generate", "self"] then []
  else if σ.callable generator then
    match σ.asHost host with
    | .error _ => []
    | .ok i =>
      match σ.sheet? registry i with
      | some sheet =>
        match σ.record .resettingSheet host with
        | .error _ => []
        | .ok σ => σ.resetDeeds sheet generator
      | none =>
        match σ.record .buildingSheet host with
        | .error _ => []
        | .ok σ =>
          if options.contains "selector" then []
          else σ.rootDeeds (.text Combinator.root.token) host generator options
  else []

/-- What creating the text of a style sheet does, given the host if there is one, and one or two
further arguments. -/
def createWithDeeds (σ : Session) (host first second : Datum) (options : Table Datum) :
    List Event :=
  if !host.isNull then
    if second.isNull then σ.obtainDeeds firstRegistry host first options else []
  else if !second.isNull then σ.obtainDeeds firstRegistry first second options
  else if σ.callable first then σ.buildDeeds (.text Combinator.root.token) first none options
  else []

/-- What creating the text of a style sheet does. -/
def createDeeds (σ : Session) (arguments : List Datum) (host : Datum) (options : Table Datum) :
    List Event :=
  if !host.isNull && options.contains hostOption then []
  else
    let host := if host.isNull then (options.find? hostOption).getD .null else host
    let options := options.erase hostOption
    match arguments with
    | [first] => σ.createWithDeeds host first .null options
    | [first, second] => σ.createWithDeeds host first second options
    | _ => []

/-! ### Statements -/

/-- What a statement does to the rule set that it names, if it names one. -/
def targetDeeds (σ : Session) (t : Target) (events : NodeId → List Event) : List Event :=
  match σ.target t with
  | .node n => events n
  | _ => []

/-- What a write does if it succeeds. -/
def writeDeeds (σ : Session) (n : NodeId) (d : Datum) : List Event :=
  match σ.store.write n d, d with
  | .ok _, .text t => [.wrote n t]
  | _, _ => []

/-- What an assignment does: it is a write of its declarations. -/
def assignDeeds (σ : Session) (n : NodeId) (properties : Datum) (keywords : Table Datum) :
    List Event :=
  match declarationsOf σ.appearance (some properties) keywords with
  | .error _ => []
  | .ok lines => σ.writeDeeds n (.text lines)

/-- What a definition does if its value can be shown. -/
def defineDeeds (σ : Session) (n : NodeId) (name : String) (value : Datum) : List Event :=
  match propertyValue σ.appearance value with
  | .error _ => []
  | .ok text => [.defined n name text]

/-- What a statement does as it begins. -/
def deeds (σ : Session) : Action Datum (List Stmt) → List Event
  | .select t method argument generator =>
    σ.targetDeeds t fun n => σ.methodDeeds n method argument generator
  | .write t text => σ.targetDeeds t fun n => σ.writeDeeds n text
  | .assign t properties keywords =>
    σ.targetDeeds t fun n => σ.assignDeeds n (properties.getD .null) (.ofList keywords)
  | .define t name value => σ.targetDeeds t fun n => σ.defineDeeds n name value
  | .reset t generator => σ.targetDeeds t fun n => σ.resetDeeds n generator
  | .setOption t name value => σ.targetDeeds t fun n => [.optionSet n name value]
  | .build selector generator host options => σ.buildDeeds selector generator host (.ofList options)
  | .construct selector generator host options parent =>
    σ.constructDeeds selector generator (host.getD .null) (.ofList options)
      (parent.bind σ.handles.find?)
  | .create arguments host options => σ.createDeeds arguments (host.getD .null) (.ofList options)
  | .obtain name host generator options =>
    (σ.withRegistry name).1.obtainDeeds (σ.withRegistry name).2 host generator (.ofList options)
  | .render name host generator options =>
    (σ.withRegistry name).1.obtainDeeds (σ.withRegistry name).2 host generator (.ofList options)
  | _ => []

/-- What a statement does once its body has ended. -/
def finishDeeds (σ : Session) : Purpose → List Event
  | .select child _ _ =>
    match (σ.store.get child).parent with
    | some parent => [.selected parent child]
    | none => []
  | .name n _ generator _ => σ.namedDeeds n .null generator
  | _ => []

end Session

end RuleTree
