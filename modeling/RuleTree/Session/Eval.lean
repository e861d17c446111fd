import RuleTree.Session
import RuleTree.Text.Lowercase

/-!
# What is passed to statements

* `Session.Eval`: a computation that may make objects and may fail;
* `Session.newKind`, `Session.requireKey`: a new kind of element, and a check of a dictionary key;
* `Session.eval`: the value of an expression;
* `Session.className`: the class name that a naming rule gives;
* `Session.evalAction`: an action with the values of all its arguments;
* `Session.target`: what a statement acts on;
* `Session.heldBy`: the objects that a statement keeps alive while it waits.

Generators, kinds, naming rules and floating-point numbers that are written in place are new objects
each time.
-/

namespace RuleTree

namespace Session

/-- A computation that may make objects and may fail. -/
abbrev Eval := StateT Session (Except Error)

/-- A number that no object has yet. -/
def newStamp : Eval Stamp := fun σ => .ok (σ.stamps, { σ with stamps := σ.stamps + 1 })

/-- A new generator with a given body. -/
def newGenerator (body : List Stmt) : Eval Generator :=
  fun σ => .ok (.inline σ.bodies.size, { σ with bodies := σ.bodies.push body })

/-- The text that a value is. -/
def textOf : Datum → Except Error String
  | .text s => .ok s
  | _ => .error .notJoinable

/-- Refuse a value that may not be a dictionary key. -/
def requireKey (d : Datum) : Eval Unit := do
  if !d.isKey (← get).hasHash then throw .notHashable

/-- A new kind of element. Its name may not have the character that ends texts. -/
def newKind (name : String) : Eval Datum := do
  if name.toList.contains '\x00' then throw .badName
  return .kind name (← newStamp)

mutual

/-- The value of an expression. Names that stand for nothing give the value for nothing. -/
def eval : Expr → Eval Datum
  | .null => return .null
  | .bool b => return .bool b
  | .int n => return .int n
  | .text s => return .text s
  | .integer digits => return .int (← readInteger digits)
  | .decimal digits => return .float (← Double.read digits) (← newStamp)
  | .kind name => newKind name
  | .naming rule => return .naming rule (← newStamp)
  | .list items => return .list (← evalItems items)
  | .dict entries => do
    let pairs ← evalEntries entries
    return .ofPairs (← get).equal pairs
  | .concat parts => do
    let ds ← evalItems parts
    let texts ← (ds.mapM textOf : Except Error (List String))
    return .text (String.join texts)
  | .host name => do return (((← get).hostNames.find? name).map Datum.host).getD .null
  | .saved name => do return ((← get).saved.find? name).getD .null
  | .named generator => return .generator (.named generator)
  | .inline body => return .generator (← newGenerator body)

/-- The values of a list of expressions. -/
def evalItems : List Expr → Eval (List Datum)
  | [] => return []
  | e :: rest => do
    let d ← eval e
    let ds ← evalItems rest
    return d :: ds

/-- The values of the keys and values of a dictionary. Each key must have a hash. -/
def evalEntries : List (Expr × Expr) → Eval (List (Datum × Datum))
  | [] => return []
  | (k, v) :: rest => do
    let key ← eval k
    let value ← eval v
    requireKey key
    let entries ← evalEntries rest
    return (key, value) :: entries

end

/-- The class name that a rule gives to a kind of element by the kind's own name. What is no kind
has none, and what is the same for every kind is literal. -/
def className (rule : Naming) (name : Option String) : Eval Datum :=
  match rule, name with
  | .constant value, _ => if value.literal then eval value else throw .notLiteral
  | .failing message, _ => throw (.raised message)
  | .own, some name => return .text name
  | .lowered, some name => return .text (Text.lowercase name)
  | .prefixed text, some name => return .text (text ++ name)
  | _, none => throw .nameless

/-- An action with the values of all its arguments, which are worked out in order. -/
def evalAction (action : Action Expr (List Stmt)) : Eval (Action Datum (List Stmt)) :=
  action.evaluate eval

/-! ### What statements act on -/

/-- What enclosing generators run on, innermost first. -/
def enclosing (σ : Session) : List Datum := σ.calls.filterMap fun c => c.purpose.subject?

/-- What a statement acts on; nothing, if the handle holds nothing or no generator is running. -/
def target (σ : Session) : Target → Datum
  | .handle name => ((σ.handles.find? name).map Datum.node).getD .null
  | .enclosing depth => (σ.enclosing[depth]?).getD .null

/-- The objects that a statement keeps alive while it waits: what it acts on and what it is passed.
-/
def heldBy (σ : Session) (action : Action Datum (List Stmt)) : List Identity :=
  (action.target?.map σ.target).toList.flatMap Datum.identities
    ++ action.arguments.flatMap Datum.identities

end Session

end RuleTree
