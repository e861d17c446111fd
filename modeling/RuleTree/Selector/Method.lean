import RuleTree.Selector.Catalog
import RuleTree.Table

/-!
# Selection methods

Every way to select nested rules is a method that turns an argument into a fragment.

* `Method`: the methods: a fragment as it stands, a token with a payload, a kind of element, a bare
  descendant, and the catalog's shortcuts;
* `Method.ofName?`, `Method.named`: the method with a given name;
* `Method.bind`: which of the values passed is the argument and which the generator;
* `Method.fragmentOf`: the fragment of an argument;
* `Method.unbound`: a selection made on nothing, which only checks what it was passed.
-/

namespace RuleTree

/-- A selection method. -/
inductive Method
  | fragment
  | joined (c : Combinator)
  | kind
  | descendant
  | shortcut (s : Shortcut)
  deriving DecidableEq

namespace Method

/-- The methods that are not shortcuts, by name. -/
def primitives : List (String × Method) :=
  [("select", fragment), ("select_pseudo_class", joined .pseudoClass),
   ("select_pseudo_element", joined .pseudoElement), ("select_class", kind),
   ("select_class_name", joined .className), ("select_id", joined .id),
   ("select_descendant", descendant), ("select_child", joined .child),
   ("select_adjacent", joined .adjacent), ("select_sibling", joined .sibling)]

/-- The shortcuts of the catalog, by method name. -/
def shortcuts : List (String × Method) := catalog.map fun s => (s.methodName, shortcut s)

/-- The method with a given name. -/
def ofName? (name : String) : Option Method := Entries.find? name (primitives ++ shortcuts)

/-- The method with a given name, which must be there. -/
def named (name : String) : Except Error Method :=
  match ofName? name with
  | some m => .ok m
  | none => .error (.unknownMethod name)

/-- Whether a method takes an argument. -/
def takesArgument : Method → Bool
  | descendant => false
  | shortcut s => s.argument != .none
  | _ => true

/-- Tell argument and generator apart. The first value passed is the argument of a method that takes
one, and must be there; else it is the generator, and there must be no other. -/
def bind {α : Type} (m : Method) (first generator : Option α) :
    Except Error (Option α × Option α) :=
  if m.takesArgument then
    if first.isSome then .ok (first, generator) else .error .badArguments
  else match first, generator with
    | some _, some _ => .error .badArguments
    | some g, none => .ok (none, some g)
    | none, g => .ok (none, g)

/-- The fragment of an argument. Methods without argument ignore it. For a kind of element the
argument is the class name that it was given. -/
def fragmentOf (look : Appearance) (m : Method) (argument : Datum) : Except Error Datum :=
  match m with
  | fragment => .ok argument
  | joined c => (argument.spelled look).map fun text => .text (c.join text)
  | kind => (argument.spelled look).map fun text => .text (Combinator.className.join text)
  | descendant => .ok (.text (Combinator.descendant.join ""))
  | shortcut s => (s.fragment look argument).map .text

/-- A selection made on nothing: it has no options to ask and yields no fragment, so it only shows
whether what was passed fits the method. The result is the kind of error that stands for a missing
implementation. -/
def unbound (m : Method) (arguments : List Datum) : Except Error Datum := do
  let first := arguments.head?
  let generator := arguments[1]?
  if 2 < arguments.length then .error .badArguments
  let (argument, _) ← m.bind first generator
  if m = kind then .error .noOptions
  let _ ← m.fragmentOf .plain (argument.getD .null)
  .ok (.kind "NotImplementedError" 0)

end Method

end RuleTree
