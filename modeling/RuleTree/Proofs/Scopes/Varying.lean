import RuleTree.Machine
import RuleTree.Proofs.Scopes.Matching

/-!
# Scripts that define other values

* `HostKind.Rel`, `Action.Rel`: the same kind of host and the same action, with related arguments
  and bodies;
* `Expr.Varies`, `Stmt.Varies`: the same expression and the same statement, but for the values
  passed to definitions, at any nesting;
* `Stmt.Varies.action`: two such statements either define the same name on the same rule set, or do
  the same, which is no definition, with arguments that vary;
* `Script.Varies`: the same script but for such values.

A naming rule gives the same class names in both scripts. Bodies inside of it are never run.
-/

namespace RuleTree

/-- Being the same kind of host, with related keys. -/
inductive HostKind.Rel {α α' : Type} (r : α → α' → Prop) : HostKind α → HostKind α' → Prop
  | plain : Rel r .plain .plain
  | callable : Rel r .callable .callable
  | empty : Rel r .empty .empty
  | equal {key : α} {key' : α'} (h : r key key') : Rel r (.equal key) (.equal key')
  | unhashable : Rel r .unhashable .unhashable

/-- Being the same action, with related arguments and bodies. -/
inductive Action.Rel {α α' β β' : Type} (r : α → α' → Prop) (q : β → β' → Prop) :
    Action α β → Action α' β' → Prop
  | select (target : Target) (method : String) {a g : Option α} {a' g' : Option α'}
    (argument : Option.Rel r a a') (generator : Option.Rel r g g') :
    Rel r q (.select target method a g) (.select target method a' g')
  | write (target : Target) {a : α} {a' : α'} (text : r a a') :
    Rel r q (.write target a) (.write target a')
  | assign (target : Target) {a : Option α} {a' : Option α'} {k : List (String × α)}
    {k' : List (String × α')} (properties : Option.Rel r a a')
    (keywords : List.Forall₂ (PairRel Eq r) k k') :
    Rel r q (.assign target a k) (.assign target a' k')
  | define (target : Target) (name : String) {a : α} {a' : α'} (value : r a a') :
    Rel r q (.define target name a) (.define target name a')
  | setScope (target : Target) (name : String) {a : α} {a' : α'} (value : r a a') :
    Rel r q (.setScope target name a) (.setScope target name a')
  | check (target : Target) (name : String) : Rel r q (.check target name) (.check target name)
  | var (target : Target) (name : String) : Rel r q (.var target name) (.var target name)
  | reset (target : Target) {a : α} {a' : α'} (generator : r a a') :
    Rel r q (.reset target a) (.reset target a')
  | read (target : Target) (facet : Facet) : Rel r q (.read target facet) (.read target facet)
  | setOption (target : Target) (name : String) {a : α} {a' : α'} (value : r a a') :
    Rel r q (.setOption target name a) (.setOption target name a')
  | iterate (target : Target) (walk : Walk) (iteration : String) :
    Rel r q (.iterate target walk iteration) (.iterate target walk iteration)
  | advance (iteration : String) (count : Nat) :
    Rel r q (.advance iteration count) (.advance iteration count)
  | same (first second : String) : Rel r q (.same first second) (.same first second)
  | drop (handle : String) : Rel r q (.drop handle) (.drop handle)
  | build {s g : α} {s' g' : α'} {h : Option α} {h' : Option α'} {o : List (String × α)}
    {o' : List (String × α')} (selector : r s s') (generator : r g g') (host : Option.Rel r h h')
    (options : List.Forall₂ (PairRel Eq r) o o') : Rel r q (.build s g h o) (.build s' g' h' o')
  | construct {s g : α} {s' g' : α'} {h : Option α} {h' : Option α'} {o : List (String × α)}
    {o' : List (String × α')} (parent : Option String) (selector : r s s') (generator : r g g')
    (host : Option.Rel r h h') (options : List.Forall₂ (PairRel Eq r) o o') :
    Rel r q (.construct s g h o parent) (.construct s' g' h' o' parent)
  | create {a : List α} {a' : List α'} {h : Option α} {h' : Option α'} {o : List (String × α)}
    {o' : List (String × α')} (arguments : List.Forall₂ r a a') (host : Option.Rel r h h')
    (options : List.Forall₂ (PairRel Eq r) o o') : Rel r q (.create a h o) (.create a' h' o')
  | makeHost (name : String) {k : HostKind α} {k' : HostKind α'} (kind : HostKind.Rel r k k') :
    Rel r q (.makeHost name k) (.makeHost name k')
  | dropHost (name : String) : Rel r q (.dropHost name) (.dropHost name)
  | makeRegistry (registry : String) : Rel r q (.makeRegistry registry) (.makeRegistry registry)
  | lookup (registry : String) {h : α} {h' : α'} (host : r h h') :
    Rel r q (.lookup registry h) (.lookup registry h')
  | release (registry : String) {h : α} {h' : α'} (host : r h h') :
    Rel r q (.release registry h) (.release registry h')
  | contains (registry : String) {h : α} {h' : α'} (host : r h h') :
    Rel r q (.contains registry h) (.contains registry h')
  | size (registry : String) : Rel r q (.size registry) (.size registry)
  | labelRegistry (registry : String) : Rel r q (.labelRegistry registry) (.labelRegistry registry)
  | clear (registry : String) : Rel r q (.clear registry) (.clear registry)
  | obtain (registry : String) {h g : α} {h' g' : α'} {o : List (String × α)}
    {o' : List (String × α')} (host : r h h') (generator : r g g')
    (options : List.Forall₂ (PairRel Eq r) o o') :
    Rel r q (.obtain registry h g o) (.obtain registry h' g' o')
  | render (registry : String) {h g : α} {h' g' : α'} {o : List (String × α)}
    {o' : List (String × α')} (host : r h h') (generator : r g g')
    (options : List.Forall₂ (PairRel Eq r) o o') :
    Rel r q (.render registry h g o) (.render registry h' g' o')
  | raise (message : String) : Rel r q (.raise message) (.raise message)
  | attempt {b : β} {b' : β'} (body : q b b') : Rel r q (.attempt b) (.attempt b')

section Refl

variable {α β : Type} {r : α → α → Prop} {q : β → β → Prop} (hr : ∀ a, r a a)
include hr

theorem HostKind.Rel.refl (kind : HostKind α) : HostKind.Rel r kind kind := by
  cases kind with
  | equal key => exact .equal (hr key)
  | _ => constructor

theorem Action.Rel.refl (hq : ∀ b, q b b) (action : Action α β) : Action.Rel r q action action := by
  cases action <;> constructor
  all_goals first
    | exact hr _
    | exact hq _
    | exact Option.Rel.refl hr _
    | exact NamedRel.refl hr _
    | exact forall₂_refl hr _
    | exact HostKind.Rel.refl hr _

end Refl

mutual

/-- Being the same expression but for the values that are passed to definitions in it. -/
inductive Expr.Varies : Expr → Expr → Prop
  | same (e : Expr) : Expr.Varies e e
  | list {xs ys : List Expr} (h : List.Forall₂ Expr.Varies xs ys) :
    Expr.Varies (.list xs) (.list ys)
  | dict {xs ys : List (Expr × Expr)}
    (h : List.Forall₂ (PairRel Expr.Varies Expr.Varies) xs ys) : Expr.Varies (.dict xs) (.dict ys)
  | concat {xs ys : List Expr} (h : List.Forall₂ Expr.Varies xs ys) :
    Expr.Varies (.concat xs) (.concat ys)
  | inline {b b' : List Stmt} (h : List.Forall₂ Stmt.Varies b b') :
    Expr.Varies (.inline b) (.inline b')

/-- Being the same statement but for the values that are passed to definitions in it. -/
inductive Stmt.Varies : Stmt → Stmt → Prop
  | same (s : Stmt) : Stmt.Varies s s
  | define (target : Target) (name : String) (value value' : Expr) (handle saved : Option String) :
    Stmt.Varies (.mk (.define target name value) handle saved)
      (.mk (.define target name value') handle saved)
  | mk {a a' : Action Expr (List Stmt)} (handle saved : Option String)
    (h : Action.Rel Expr.Varies (List.Forall₂ Stmt.Varies) a a') :
    Stmt.Varies (.mk a handle saved) (.mk a' handle saved)

end

/-- Being the same statements but for the values that are passed to definitions in them. -/
abbrev Body.Varies : List Stmt → List Stmt → Prop := List.Forall₂ Stmt.Varies

theorem Body.Varies.refl (body : List Stmt) : Body.Varies body body := forall₂_refl .same body

namespace Expr.Varies

variable {e' : Expr}

theorem of_list {xs : List Expr} (h : (Expr.list xs).Varies e') :
    ∃ ys, e' = .list ys ∧ List.Forall₂ Expr.Varies xs ys := by
  cases h with
  | same => exact ⟨xs, rfl, forall₂_refl .same xs⟩
  | list h => exact ⟨_, rfl, h⟩

theorem of_dict {xs : List (Expr × Expr)} (h : (Expr.dict xs).Varies e') :
    ∃ ys, e' = .dict ys ∧ List.Forall₂ (PairRel Expr.Varies Expr.Varies) xs ys := by
  cases h with
  | same => exact ⟨xs, rfl, forall₂_refl (fun _ => .mk (.same _) (.same _)) xs⟩
  | dict h => exact ⟨_, rfl, h⟩

theorem of_concat {xs : List Expr} (h : (Expr.concat xs).Varies e') :
    ∃ ys, e' = .concat ys ∧ List.Forall₂ Expr.Varies xs ys := by
  cases h with
  | same => exact ⟨xs, rfl, forall₂_refl .same xs⟩
  | concat h => exact ⟨_, rfl, h⟩

theorem of_inline {body : List Stmt} (h : (Expr.inline body).Varies e') :
    ∃ body', e' = .inline body' ∧ Body.Varies body body' := by
  cases h with
  | same => exact ⟨body, rfl, .refl body⟩
  | inline h => exact ⟨_, rfl, h⟩

end Expr.Varies

/-- Whether an action is a definition. -/
def Action.defines {α β : Type} : Action α β → Bool
  | .define _ _ _ => true
  | _ => false

/-- Two actions that define the same name on the same rule set. -/
inductive Action.Redefines : Action Expr (List Stmt) → Action Expr (List Stmt) → Prop
  | mk (target : Target) (name : String) (value value' : Expr) :
    Redefines (.define target name value) (.define target name value')

namespace Stmt.Varies

variable {s s' : Stmt}

theorem handle (h : s.Varies s') : s.handle = s'.handle := by cases h <;> rfl

theorem saved (h : s.Varies s') : s.saved = s'.saved := by cases h <;> rfl

theorem tagOf (h : s.Varies s') (path : Path) : Machine.tagOf path s = Machine.tagOf path s' := by
  unfold Machine.tagOf
  rw [h.handle, h.saved]

theorem action (h : s.Varies s') : s.action.Redefines s'.action ∨
    Action.Rel Expr.Varies Body.Varies s.action s'.action ∧ s.action.defines = false := by
  have told {a a' : Action Expr (List Stmt)} (h : Action.Rel Expr.Varies Body.Varies a a') :
      a.Redefines a' ∨ Action.Rel Expr.Varies Body.Varies a a' ∧ a.defines = false := by
    have whole := h
    cases h with
    | define target name => exact .inl (.mk target name _ _)
    | _ => exact .inr ⟨whole, rfl⟩
  cases h with
  | same => exact told (.refl .same .refl _)
  | define target name value value' => exact .inl (.mk target name value value')
  | mk _ _ h => exact told h

end Stmt.Varies

/-- Being the same script but for the values that are passed to definitions. -/
structure Script.Varies (s s' : Script) : Prop where
  steps : Body.Varies s.steps s'.steps
  generators : NamedRel Body.Varies s.generators.entries s'.generators.entries
  logs : s.logs = s'.logs

end RuleTree
