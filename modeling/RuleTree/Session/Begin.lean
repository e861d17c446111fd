import RuleTree.Session.Eval
import RuleTree.Session.Read
import RuleTree.Session.Select
import RuleTree.Session.Sheets

/-!
# Beginning and ending a statement

* `Session.begin`: the beginning of any statement, once its arguments are worked out;
* `Session.finish`: what a statement does once its body has ended.

A call that is refused before its generator starts leaves the rule sets and the registries as they
were, apart from a reset, which may have emptied its rule set by then.
-/

namespace RuleTree

namespace Session

/-- An action that either changes the store or fails. -/
def changeStore (σ : Session) (store : Except Error Store) (result : Store → Result) : Start :=
  match store with
  | .error e => .refuse σ e
  | .ok store => .done { σ with store } (.ok (result store))

/-- An action on the rule set that a statement names. -/
def onNode (σ : Session) (t : Target) (act : NodeId → Start) : Start :=
  match σ.target t with
  | .node n => act n
  | _ => .refuse σ .noTarget

/-- An action on the registry that a statement names. -/
def onRegistry (σ : Session) (name : String) (act : Session → RegistryId → Start) : Start :=
  let (σ, id) := σ.withRegistry name
  act σ id

/-- The beginning of a statement. -/
def begin (σ : Session) (action : Action Datum (List Stmt)) : Start :=
  match action with
  | .select t method argument generator =>
    σ.onNode t fun n => σ.callMethod n method argument generator
  | .write t text =>
    σ.onNode t fun n => σ.changeStore (σ.store.write n text) fun s => .written (s.get n).text
  | .assign t properties keywords =>
    σ.onNode t fun n =>
      σ.changeStore (σ.store.assign σ.appearance n (properties.getD .null) (.ofList keywords))
        fun s => .written (s.get n).text
  | .define t name value =>
    σ.onNode t fun n =>
      σ.changeStore (σ.store.define σ.appearance n name value)
        fun s => .scope (s.get n).scope.entries
  | .setScope t _ _ => σ.onNode t fun _ => .refuse σ .scopeReadOnly
  | .check t name => σ.onNode t fun n => .answer σ (.ok (.bool (σ.sees n name)))
  | .var t name => σ.onNode t fun n => .answer σ ((σ.reference n name).map .text)
  | .reset t generator => σ.onNode t fun n => σ.reset n none .node generator
  | .read t facet => σ.read (σ.target t) facet
  | .setOption t name value =>
    σ.onNode t fun n => σ.changeStore (.ok (σ.store.setOption n name value)) fun _ => .nothing
  | .iterate t walk iteration => σ.iterate (σ.target t) walk iteration
  | .advance iteration count => σ.advance iteration count
  | .same a b => .answer σ (.ok (.bool (σ.handles.find? a == σ.handles.find? b)))
  | .drop handle => .done { σ with handles := σ.handles.erase handle } (.ok .nothing)
  | .build selector generator host options =>
    σ.build selector generator host (.ofList options) .node
  | .construct selector generator host options parent =>
    σ.construct selector generator (host.getD .null) (.ofList options)
      (parent.bind σ.handles.find?)
  | .create arguments host options => σ.create arguments (host.getD .null) (.ofList options)
  | .makeHost name kind => .done (σ.makeHost name kind) (.ok .nothing)
  | .dropHost name => .done { σ with hostNames := σ.hostNames.erase name } (.ok .nothing)
  | .makeRegistry name => .done (σ.makeRegistry name).1 (.ok .nothing)
  | .lookup name host => σ.onRegistry name fun σ id => .answer σ (σ.lookup id host)
  | .release name host => σ.onRegistry name fun σ id => σ.release id host
  | .contains name host => σ.onRegistry name fun σ id => .answer σ (σ.containsHost id host)
  | .size name =>
    σ.onRegistry name fun σ id => .answer σ (.ok (.value (.int (σ.entries id).length)))
  | .labelRegistry name =>
    σ.onRegistry name fun σ id => .answer σ (.ok (.text (σ.registryLabel id)))
  | .clear name => σ.onRegistry name fun σ id => .done (σ.setEntries id []) (.ok .nothing)
  | .obtain name host generator options =>
    σ.onRegistry name fun σ id => σ.obtain id host generator (.ofList options) .node
  | .render name host generator options =>
    σ.onRegistry name fun σ id => σ.obtain id host generator (.ofList options) .css
  | .raise message => .refuse σ (.raised message)
  | .attempt body => .enter σ .attempt body

/-! ### The end of a body -/

/-- What a finished build gives. -/
def output (σ : Session) (n : NodeId) : Output → Except Error Result
  | .node => .ok (.value (.node n))
  | .css => (σ.css n).map .text

/-- What a statement does once its body has ended without an error. One that had to work something
out first only now begins in earnest. -/
def finish (σ : Session) : Purpose → Start
  | .select child fragment _ =>
    .done { σ with store := σ.store.attach child } (.ok (.value fragment))
  | .build n out => .answer σ (σ.output n out)
  | .reset n _ out => .answer σ (σ.output n out)
  | .register registry host n out =>
    let σ := σ.putSheet registry host n
    .answer σ (σ.output n out)
  | .name n _ generator _ => σ.selectNamed n .null generator
  | .probe n _ listed name rest =>
    σ.probe n (listed ++ [(name, OptionSet.probedPicture .null)]) rest
  | .attempt => .answer σ (.ok (.caught none))

end Session

end RuleTree
