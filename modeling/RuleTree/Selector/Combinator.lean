import RuleTree.Datum
import RuleTree.Text.Quoted

/-!
# Combinators

The tokens that join a fragment onto the selector before it.

* `Combinator`: the nine combinators, `Combinator.all` in their usual order;
* `Combinator.token`, `Combinator.name`, `Combinator.ofToken?`, `Combinator.ofName?`;
* `Combinator.join`: the token followed by a payload;
* `Combinator.terminates`: whether a selector ends with the token. The root has no token and ends
  nothing.
-/

namespace RuleTree

/-- A way to join a fragment onto a selector. -/
inductive Combinator
  | adjacent
  | child
  | className
  | descendant
  | id
  | root
  | pseudoElement
  | pseudoClass
  | sibling
  deriving DecidableEq

namespace Combinator

/-- All combinators. -/
def all : List Combinator :=
  [adjacent, child, className, descendant, id, root, pseudoElement, pseudoClass, sibling]

/-- The text that stands for a combinator in a selector. -/
def token : Combinator → String
  | adjacent => "+"
  | child => ">"
  | className => "."
  | descendant => " "
  | id => "#"
  | root => ""
  | pseudoElement => "::"
  | pseudoClass => ":"
  | sibling => "~"

/-- The name of a combinator. -/
def name : Combinator → String
  | adjacent => "Adjacent"
  | child => "Child"
  | className => "Class"
  | descendant => "Descendant"
  | id => "Id"
  | root => "Root"
  | pseudoElement => "PseudoElement"
  | pseudoClass => "PseudoClass"
  | sibling => "Sibling"

/-- The combinator with a given name. -/
def ofName? (name : String) : Option Combinator := all.find? fun c => c.name = name

/-- The combinator that a value is the token of. -/
def ofToken? (token : Datum) : Except Error Combinator :=
  match token with
  | .text s =>
    match all.find? fun c => c.token = s with
    | some c => .ok c
    | none => .error .unknownToken
  | _ => .error .unknownToken

/-- The fragment made of the token and a payload. -/
def join (c : Combinator) (payload : String) : String := c.token ++ payload

/-- Whether a selector ends with the token. -/
def terminates (c : Combinator) (selector : String) : Bool :=
  c.token != "" && c.token.toList.isSuffixOf selector.toList

/-- Whether a value, taken as a selector, ends with the token. Any value will do for the root, which
ends nothing; for the others it must be text. -/
def terminates? (c : Combinator) (selector : Datum) : Except Error Bool :=
  if c.token = "" then .ok false
  else match selector with
    | .text s => .ok (c.terminates s)
    | _ => .error .selectorNotText

/-- A combinator as diagnostics show it. -/
def label (c : Combinator) : String :=
  "Combinator." ++ c.name ++ "(" ++ Text.quoted c.token ++ ")"

theorem mem_all (c : Combinator) : c ∈ all := by cases c <;> decide

theorem token_injective {c d : Combinator} (h : c.token = d.token) : c = d := by
  cases c <;> cases d <;> first | rfl | exact absurd h (by decide)

theorem terminates_descendant (s : String) :
    descendant.terminates s = true ↔ ∃ cs, s.toList = cs ++ [' '] := by
  simp only [terminates, token, Bool.and_eq_true, List.isSuffixOf_iff_suffix]
  constructor
  · rintro ⟨_, t, ht⟩
    exact ⟨t, ht.symm⟩
  · rintro ⟨t, ht⟩
    exact ⟨rfl, t, ht.symm⟩

end Combinator

/-- Whether a selector still awaits a target: it ends with a bare descendant combinator. -/
def incomplete (selector : String) : Bool := Combinator.descendant.terminates selector

/-- Whether a value, taken as a selector, still awaits a target. -/
def incomplete? (selector : Datum) : Except Error Bool :=
  Combinator.descendant.terminates? selector

@[simp] theorem incomplete?_text (s : String) : incomplete? (.text s) = .ok (incomplete s) := rfl

end RuleTree
