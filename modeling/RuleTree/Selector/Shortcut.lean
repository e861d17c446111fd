import RuleTree.Datum.Printer
import RuleTree.Selector.Combinator

/-!
# Shortcuts

Named pseudo-classes and pseudo-elements whose token may have a slot for an argument.

* `fillTemplate`: a template with its slot filled; braces in the argument mean nothing;
* `ArgumentKind`: what a shortcut takes: nothing, one value, or a list of selectors;
* `Shortcut`, `Shortcut.format`, `Shortcut.fragment`: the token for an argument, and the fragment
  that is selected for it.

In a template an empty pair of braces is a slot and a doubled brace stands for one. A shortcut that
takes nothing has a plain text for its token, in which braces mean nothing either.
-/

namespace RuleTree

/-- The characters of a template whose slots take the given arguments in turn. -/
def fillTemplateChars (arguments : List (Except Error String)) :
    List Char → Except Error (List Char)
  | [] => .ok []
  | '\x7b' :: '\x7b' :: rest => (fillTemplateChars arguments rest).map ('\x7b' :: ·)
  | '\x7d' :: '\x7d' :: rest => (fillTemplateChars arguments rest).map ('\x7d' :: ·)
  | '\x7b' :: '\x7d' :: rest =>
    match arguments with
    | [] => .error .noArgument
    | argument :: others => do
      let filled ← argument
      let cs ← fillTemplateChars others rest
      return filled.toList ++ cs
  | '\x7b' :: _ => .error .badTemplate
  | '\x7d' :: _ => .error .badTemplate
  | c :: rest => (fillTemplateChars arguments rest).map (c :: ·)

/-- A template with its slot filled. Nobody asks for the argument if there is no slot. -/
def fillTemplate (template : String) (argument : Except Error String) : Except Error String :=
  (fillTemplateChars [argument] template.toList).map String.ofList

/-- Characters that are no braces stand for themselves. -/
theorem fillTemplateChars_append (arguments : List (Except Error String)) {cs : List Char}
    (h : ∀ c ∈ cs, c ≠ '\x7b' ∧ c ≠ '\x7d') (rest : List Char) :
    fillTemplateChars arguments (cs ++ rest) =
      (fillTemplateChars arguments rest).map (cs ++ ·) := by
  induction cs with
  | nil =>
    rw [List.nil_append]
    cases fillTemplateChars arguments rest <;> rfl
  | cons c cs ih =>
    have hc := h c List.mem_cons_self
    have ih := ih fun d hd => h d (List.mem_cons_of_mem _ hd)
    rw [List.cons_append, fillTemplateChars.eq_def]
    split
    all_goals simp_all
    cases fillTemplateChars arguments rest <;> rfl

/-- A slot between texts without braces is filled with the argument. -/
theorem fillTemplateChars_slot (argument : String) {before after : List Char}
    (hb : ∀ c ∈ before, c ≠ '\x7b' ∧ c ≠ '\x7d') (ha : ∀ c ∈ after, c ≠ '\x7b' ∧ c ≠ '\x7d') :
    fillTemplateChars [.ok argument] (before ++ '\x7b' :: '\x7d' :: after) =
      .ok (before ++ (argument.toList ++ after)) := by
  have h := fillTemplateChars_append [] ha []
  rw [List.append_nil] at h
  rw [fillTemplateChars_append _ hb, fillTemplateChars, h]
  simp [fillTemplateChars, bind, Except.bind, pure, Except.pure, Except.map]

/-- What a shortcut takes. -/
inductive ArgumentKind
  | none
  | value
  | selectors
  deriving DecidableEq

/-- The name of an argument kind. -/
def ArgumentKind.name : ArgumentKind → String
  | .none => "none"
  | .value => "value"
  | .selectors => "selectors"

/-- The argument kind of a name; a name that is not known takes nothing. -/
def ArgumentKind.ofName (name : String) : ArgumentKind :=
  if name = "value" then .value else if name = "selectors" then .selectors else .none

/-- A named selection. -/
structure Shortcut where
  name : String
  combinator : Combinator
  token : String
  argument : ArgumentKind
  deriving DecidableEq

/-- The text of a list of selectors: a text as it is, else the texts it yields with a comma between
them. A value that is not set stands for an empty list. -/
def selectorList (look : Appearance) (argument : Datum) : Except Error String :=
  match argument with
  | .text s => .ok s
  | d => if d.truthy then (d.texts look).map (", ".intercalate ·) else .ok ""

namespace Shortcut

/-- The token of a shortcut for an argument. -/
def format (look : Appearance) (s : Shortcut) (argument : Datum) : Except Error String :=
  match s.argument with
  | .none => .ok s.token
  | .value => fillTemplate s.token (argument.spelled look)
  | .selectors => do
    let selectors ← selectorList look argument
    fillTemplate s.token (.ok selectors)

/-- The fragment that is selected for an argument. -/
def fragment (look : Appearance) (s : Shortcut) (argument : Datum) : Except Error String :=
  (s.format look argument).map s.combinator.join

/-- The name of the method that selects a shortcut. -/
def methodName (s : Shortcut) : String := "select_" ++ s.name

/-- The full name of that method. -/
def qualifiedName (s : Shortcut) : String := "Selectors." ++ s.methodName

/-- What that method is for. -/
def summary (s : Shortcut) : String := "Select `" ++ s.combinator.join s.token ++ "`."

end Shortcut

end RuleTree
