import RuleTree.Table

/-!
# Scripts

The statements that build and use style sheets, as data.

* `Path`: where a statement stands among those that ran: positions along the nesting of calls;
* `Target`, `Facet`, `HostKind`: the rule set acted on, what is read of it, and the kinds of host;
* `Walk`: what an iteration is over;
* `Action`: what a statement does, for any kind of argument and of body;
* `Action.evaluate`, `Action.arguments`: the action with its arguments worked out in order, and the
  list of its arguments, with what is in it;
* `Expr`, `Naming`, `Stmt`: what is passed to a statement, with the generators and naming rules
  written in place, and the statement: its action, and the names under which its result is kept;
* `Expr.literal`: an expression that needs nothing of the script.

A generator is nothing but a list of statements that is run on a rule set.
-/

namespace RuleTree

/-- The positions of a statement and of the statements whose calls it is nested in, outermost first.
-/
abbrev Path := List Nat

/-- The rule set that a statement acts on: one kept under a handle, or the one that an enclosing
generator runs on, counted from the innermost. -/
inductive Target
  | handle (name : String)
  | enclosing (depth : Nat)
  deriving DecidableEq

/-- What can be read of a rule set. -/
inductive Facet
  | selector
  | text
  | children
  | parent
  | host
  | incomplete
  | scope
  | options
  | dump
  | css
  | spelling
  | label
  | blocks
  | itself
  | child (index : Int)
  deriving DecidableEq

/-- What an iteration is over: the rule blocks of a rule set, or whatever walking over a value
yields. -/
inductive Walk
  | blocks
  | items
  deriving DecidableEq

/-- The kinds of host: told apart one by one, callable as a generator with or without effect, equal
to every host of the same key, or without a hash. -/
inductive HostKind (α : Type)
  | plain
  | callable
  | empty
  | equal (key : α)
  | unhashable

/-- Whether a host can be called as a generator. -/
def HostKind.isCallable {α : Type} : HostKind α → Bool
  | callable => true
  | empty => true
  | _ => false

/-- What hosts of a kind are told apart by, if by a key. -/
def HostKind.key? {α : Type} : HostKind α → Option α
  | equal key => some key
  | _ => none

/-- What a statement does, with arguments in `α` and bodies of statements in `β`. -/
inductive Action (α β : Type)
  /-- call a selection method -/
  | select (target : Target) (method : String) (argument generator : Option α)
  /-- append rule text -/
  | write (target : Target) (text : α)
  /-- append declarations -/
  | assign (target : Target) (properties : Option α) (keywords : List (String × α))
  /-- define a custom property -/
  | define (target : Target) (name : String) (value : α)
  /-- assign to the scope itself -/
  | setScope (target : Target) (name : String) (value : α)
  /-- ask whether a custom property is visible -/
  | check (target : Target) (name : String)
  /-- refer to a custom property -/
  | var (target : Target) (name : String)
  /-- run a generator on a rule set again -/
  | reset (target : Target) (generator : α)
  /-- read something of a rule set -/
  | read (target : Target) (facet : Facet)
  /-- set an option of the whole tree -/
  | setOption (target : Target) (name : String) (value : α)
  /-- begin to iterate -/
  | iterate (target : Target) (walk : Walk) (iteration : String)
  /-- take what an iteration yields next -/
  | advance (iteration : String) (count : Nat)
  /-- ask whether two handles hold the same rule set -/
  | same (first second : String)
  /-- forget a handle -/
  | drop (handle : String)
  /-- build a tree -/
  | build (selector generator : α) (host : Option α) (options : List (String × α))
  /-- construct a single rule set, under a parent or as a root -/
  | construct (selector generator : α) (host : Option α) (options : List (String × α))
      (parent : Option String)
  /-- create the text of a style sheet -/
  | create (arguments : List α) (host : Option α) (options : List (String × α))
  /-- make a host -/
  | makeHost (name : String) (kind : HostKind α)
  /-- destroy a host -/
  | dropHost (name : String)
  /-- make an empty registry -/
  | makeRegistry (registry : String)
  /-- the style sheet of a host -/
  | lookup (registry : String) (host : α)
  /-- forget the style sheet of a host -/
  | release (registry : String) (host : α)
  /-- ask whether a host has a style sheet -/
  | contains (registry : String) (host : α)
  /-- the number of style sheets -/
  | size (registry : String)
  /-- a registry as diagnostics show it -/
  | labelRegistry (registry : String)
  /-- forget all style sheets -/
  | clear (registry : String)
  /-- build or reset the style sheet of a host -/
  | obtain (registry : String) (host generator : α) (options : List (String × α))
  /-- build or reset the style sheet of a host and give its text -/
  | render (registry : String) (host generator : α) (options : List (String × α))
  /-- fail on purpose -/
  | raise (message : String)
  /-- run statements and catch what they raise -/
  | attempt (body : β)

namespace Action

variable {α β γ : Type} {m : Type → Type} [Monad m]

/-- Work out an argument that may be left out. -/
def evaluateOption (f : α → m γ) : Option α → m (Option γ)
  | none => return none
  | some a => return some (← f a)

/-- Work out named arguments in order. -/
def evaluateNamed (f : α → m γ) (named : List (String × α)) : m (List (String × γ)) :=
  named.mapM fun e => return (e.1, ← f e.2)

/-- Work out the key of a host. -/
def evaluateKind (f : α → m γ) : HostKind α → m (HostKind γ)
  | .plain => return .plain
  | .callable => return .callable
  | .empty => return .empty
  | .equal key => return .equal (← f key)
  | .unhashable => return .unhashable

/-- Work out all arguments of an action in order. -/
def evaluate (f : α → m γ) : Action α β → m (Action γ β)
  | select t method argument generator =>
    return select t method (← evaluateOption f argument) (← evaluateOption f generator)
  | write t text => return write t (← f text)
  | assign t properties keywords =>
    return assign t (← evaluateOption f properties) (← evaluateNamed f keywords)
  | define t name value => return define t name (← f value)
  | setScope t name value => return setScope t name (← f value)
  | check t name => return check t name
  | var t name => return var t name
  | reset t generator => return reset t (← f generator)
  | read t facet => return read t facet
  | setOption t name value => return setOption t name (← f value)
  | iterate t walk iteration => return iterate t walk iteration
  | advance iteration count => return advance iteration count
  | same first second => return same first second
  | drop handle => return drop handle
  | build selector generator host options =>
    return build (← f selector) (← f generator) (← evaluateOption f host)
      (← evaluateNamed f options)
  | construct selector generator host options parent =>
    return construct (← f selector) (← f generator) (← evaluateOption f host)
      (← evaluateNamed f options) parent
  | create arguments host options =>
    return create (← arguments.mapM f) (← evaluateOption f host) (← evaluateNamed f options)
  | makeHost name kind => return makeHost name (← evaluateKind f kind)
  | dropHost name => return dropHost name
  | makeRegistry registry => return makeRegistry registry
  | lookup registry host => return lookup registry (← f host)
  | release registry host => return release registry (← f host)
  | contains registry host => return contains registry (← f host)
  | size registry => return size registry
  | labelRegistry registry => return labelRegistry registry
  | clear registry => return clear registry
  | obtain registry host generator options =>
    return obtain registry (← f host) (← f generator) (← evaluateNamed f options)
  | render registry host generator options =>
    return render registry (← f host) (← f generator) (← evaluateNamed f options)
  | raise message => return raise message
  | attempt body => return attempt body

/-- The arguments of an action. -/
def arguments : Action α β → List α
  | select _ _ argument generator => argument.toList ++ generator.toList
  | write _ text => [text]
  | assign _ properties keywords => properties.toList ++ keywords.map Prod.snd
  | define _ _ value => [value]
  | setScope _ _ value => [value]
  | reset _ generator => [generator]
  | setOption _ _ value => [value]
  | build selector generator host options =>
    selector :: generator :: host.toList ++ options.map Prod.snd
  | construct selector generator host options _ =>
    selector :: generator :: host.toList ++ options.map Prod.snd
  | create arguments host options => arguments ++ host.toList ++ options.map Prod.snd
  | makeHost _ kind => kind.key?.toList
  | lookup _ host => [host]
  | release _ host => [host]
  | contains _ host => [host]
  | obtain _ host generator options => host :: generator :: options.map Prod.snd
  | render _ host generator options => host :: generator :: options.map Prod.snd
  | _ => []

section Arguments

variable {a first second : α} {option : Option α} {options : List (String × α)}

theorem mem_arguments_select {t : Target} {method : String} {generator : Option α} :
    a ∈ (select t method option generator : Action α β).arguments ↔
      option = some a ∨ generator = some a := by
  simp only [arguments, List.mem_append, Option.mem_toList]

theorem mem_arguments_build :
    a ∈ (build first second option options : Action α β).arguments ↔
      a = first ∨ a = second ∨ option = some a ∨ a ∈ options.map Prod.snd := by
  simp only [arguments, List.cons_append, List.mem_cons, List.mem_append, Option.mem_toList]

theorem mem_arguments_construct {parent : Option String} :
    a ∈ (construct first second option options parent : Action α β).arguments ↔
      a = first ∨ a = second ∨ option = some a ∨ a ∈ options.map Prod.snd :=
  mem_arguments_build (β := β)

theorem mem_arguments_create {arguments : List α} :
    a ∈ (create arguments option options : Action α β).arguments ↔
      a ∈ arguments ∨ option = some a ∨ a ∈ options.map Prod.snd := by
  simp only [Action.arguments, List.mem_append, Option.mem_toList, or_assoc]

end Arguments

/-- The target of an action on a rule set. -/
def target? : Action α β → Option Target
  | select t _ _ _ => some t
  | write t _ => some t
  | assign t _ _ => some t
  | define t _ _ => some t
  | setScope t _ _ => some t
  | check t _ => some t
  | var t _ => some t
  | reset t _ => some t
  | read t _ => some t
  | setOption t _ _ => some t
  | iterate t _ _ => some t
  | construct _ _ _ _ parent => parent.map .handle
  | _ => none

end Action

mutual

/-- What is passed to a statement: a plain value, a number written as text, a new kind or naming
rule, an object of the script, an earlier result, or a value put together of such. -/
inductive Expr
  | null
  | bool (b : Bool)
  | int (n : Int)
  | text (s : String)
  | integer (digits : String)
  | decimal (digits : String)
  | kind (name : String)
  | naming (rule : Naming)
  | list (items : List Expr)
  | dict (entries : List (Expr × Expr))
  | concat (parts : List Expr)
  | host (name : String)
  | saved (name : String)
  | named (generator : String)
  | inline (body : List Stmt)

/-- A rule that gives the class name of a kind of element: its own name, the name in lower case,
the name behind a fixed text, the same for every kind, or a failure. What is the same for every kind
is worked out whenever it is asked for, outside of the script, so it has to be literal. -/
inductive Naming
  | own
  | lowered
  | prefixed (text : String)
  | constant (value : Expr)
  | failing (message : String)

/-- A statement. A rule set that it results in is kept under `handle`, any result under `saved`. -/
inductive Stmt
  | mk (action : Action Expr (List Stmt)) (handle saved : Option String)

end

mutual

/-- An expression that needs nothing of the script: plain values, numbers written as text, kinds of
element, and lists, dictionaries and joined texts of such. -/
def Expr.literal : Expr → Bool
  | .null | .bool _ | .int _ | .text _ | .integer _ | .decimal _ | .kind _ => true
  | .list items => Expr.literals items
  | .dict entries => Expr.literalEntries entries
  | .concat parts => Expr.literals parts
  | .naming _ | .host _ | .saved _ | .named _ | .inline _ => false

/-- Expressions all of which are literal. -/
def Expr.literals : List Expr → Bool
  | [] => true
  | e :: rest => e.literal && Expr.literals rest

/-- Pairs of expressions all of which are literal. -/
def Expr.literalEntries : List (Expr × Expr) → Bool
  | [] => true
  | (k, v) :: rest => k.literal && v.literal && Expr.literalEntries rest

end

namespace Stmt

/-- The action of a statement. -/
def action : Stmt → Action Expr (List Stmt)
  | mk action _ _ => action

/-- The handle under which a rule set is kept. -/
def handle : Stmt → Option String
  | mk _ handle _ => handle

/-- The name under which the result is kept. -/
def saved : Stmt → Option String
  | mk _ _ saved => saved

end Stmt

/-- The registry that is used when none is named. -/
def defaultRegistry : String := "default"

/-- A script: its statements, the generators that it names, and whether a log is kept. -/
structure Script where
  steps : List Stmt
  generators : Table (List Stmt)
  logs : Bool

end RuleTree
