import RuleTree.Proofs.Calls.Amends
import RuleTree.Proofs.Rebuilding.Literals
import RuleTree.Session.Select

/-!
# Self-contained generators

A generator is self-contained if its statements, at any nesting and also under attempts, only select,
write, assign, define, refer to, check or reset the rule set that it is given or those made beneath
it, with literal arguments.

* `Bodies`: a family of bodies, by the number of enclosing generators that they may act on;
* `Expr.Passable`, `Action.ContainedIn`, `Stmt.ContainedIn`: what statements of the family may be
  passed and may do;
* `Session.MayName`: a naming option that may be asked for class names: one of its own statements is
  a statement of the generator that asks;
* `Session.Closes`, `Session.SelfContained`: a family that its own statements do not leave, and a
  body of such a family;
* `Session.Extends`: what becomes of a session while such a body is run;
* `Session.Eval.Twin`: working out the arguments of the same statement in two sessions;
* `ActionTwin`, `Session.evalAction_contained`: two actions that are the same up to numbers, as
  which contained statements are worked out.
-/

namespace RuleTree

/-- A family of bodies, by the number of enclosing generators that they may act on. -/
abbrev Bodies := Nat → List Stmt → Prop

/-- What may be passed to a selection or a reset: a literal value, or a generator of the family,
which runs with one more generator around it. -/
def Expr.Passable (generators : Table (List Stmt)) (bodies : Bodies) (depth : Nat) : Expr → Prop
  | .inline body => bodies (depth + 1) body
  | .named name => bodies (depth + 1) ((generators.find? name).getD [])
  | e => e.literal = true

/-- Acting only on enclosing rule sets, with literal arguments and generators of the family. Where
class names may not be asked for, no kind of element is selected. -/
def Action.ContainedIn (generators : Table (List Stmt)) (bodies : Bodies) (naming : Nat → Prop)
    (depth : Nat) : Action Expr (List Stmt) → Prop
  | .select (.enclosing up) method argument generator =>
    up < depth ∧ (Method.ofName? method = some .kind → naming depth) ∧
      (∀ e ∈ argument, e.Passable generators bodies depth) ∧
      ∀ e ∈ generator, e.Passable generators bodies depth
  | .write (.enclosing up) text => up < depth ∧ text.literal = true
  | .assign (.enclosing up) properties keywords =>
    up < depth ∧ (∀ e ∈ properties, e.literal = true) ∧ ∀ e ∈ keywords, e.2.literal = true
  | .define (.enclosing up) _ value => up < depth ∧ value.literal = true
  | .check (.enclosing up) _ => up < depth
  | .var (.enclosing up) _ => up < depth
  | .reset (.enclosing up) generator => up < depth ∧ generator.Passable generators bodies depth
  | .attempt body => bodies depth body
  | _ => False

/-- Doing such a thing, and keeping nothing of it. -/
structure Stmt.ContainedIn (generators : Table (List Stmt)) (bodies : Bodies) (naming : Nat → Prop)
    (depth : Nat) (s : Stmt) : Prop where
  action : s.action.ContainedIn generators bodies naming depth
  handle : s.handle = none
  saved : s.saved = none

namespace Session

/-- Being a generator of the script, or one that was written in place before. -/
def Knows (σ : Session) : Generator → Prop
  | .named _ => True
  | .inline id => id < σ.bodies.size

/-- A value that may be asked for class names where so many generators run: what it runs belongs to
the family. -/
def MayName (σ : Session) (bodies : Bodies) (className : Datum) (depth : Nat) : Prop :=
  match className with
  | .generator g => σ.Knows g ∧ bodies (depth + 1) (σ.bodyOf g)
  | _ => True

/-- A family that the statements of its bodies do not leave. -/
def Closes (σ : Session) (className : Datum) (bodies : Bodies) : Prop :=
  ∀ depth body, bodies depth body → ∀ s ∈ body,
    s.ContainedIn σ.generators bodies (σ.MayName bodies className) depth

/-- A body whose statements, at any nesting, only act on the rule set that it is run on and on those
made beneath it. -/
def SelfContained (σ : Session) (className : Datum) (body : List Stmt) : Prop :=
  ∃ bodies, σ.Closes className bodies ∧ bodies 1 body

/-! ### What becomes of a session -/

/-- What becomes of a session while a body is run that keeps to its rule sets. -/
def Extends (σ σ₁ : Session) : Prop := ∃ calls trace, { σ with calls, trace }.Amends σ₁

namespace Extends

variable {σ σ₁ σ₂ : Session}

theorem of_beside (h : σ.Beside σ₁) : σ.Extends σ₁ := ⟨σ.calls, σ.trace, .of_beside h⟩

/-- A session with another store, other numbers, calls, trace and log, but no further generators,
extends this one. -/
theorem of_kept {store : Store} {stamps : Stamp} {calls : List Call} {trace : Array TraceEntry}
    {log : Option (Array LogRecord)} (h : log.isSome = σ.log.isSome) :
    σ.Extends { σ with store, stamps, calls, trace, log } :=
  ⟨calls, trace, store, stamps, #[], log, h, by rw [Array.append_empty]⟩

theorem refl (σ : Session) : σ.Extends σ := of_beside (.refl σ)

theorem trans (h : σ.Extends σ₁) (h' : σ₁.Extends σ₂) : σ.Extends σ₂ := by
  obtain ⟨_, _, _, _, a, _, hl, rfl⟩ := h
  obtain ⟨calls, trace, store, stamps, b, log, hl', rfl⟩ := h'
  exact ⟨calls, trace, store, stamps, a ++ b, log, hl'.trans hl, by simp only [Array.append_assoc]⟩

theorem generators (h : σ.Extends σ₁) : σ₁.generators = σ.generators := by
  obtain ⟨_, _, _, _, _, _, -, rfl⟩ := h
  rfl

theorem hosts (h : σ.Extends σ₁) : σ₁.hosts = σ.hosts := by
  obtain ⟨_, _, _, _, _, _, -, rfl⟩ := h
  rfl

theorem log (h : σ.Extends σ₁) : σ₁.log.isSome = σ.log.isSome := by
  obtain ⟨_, _, _, _, _, _, hl, rfl⟩ := h
  exact hl

/-- The generators of the earlier session are still there. -/
theorem knows (h : σ.Extends σ₁) {g : Generator} (hg : σ.Knows g) : σ₁.Knows g := by
  obtain ⟨_, _, _, _, added, _, -, rfl⟩ := h
  cases g with
  | named => trivial
  | inline id =>
    show id < (σ.bodies ++ added).size
    rw [Array.size_append]
    exact Nat.lt_add_right _ hg

theorem bodyOf (h : σ.Extends σ₁) {g : Generator} (hg : σ.Knows g) : σ₁.bodyOf g = σ.bodyOf g := by
  obtain ⟨_, _, _, _, added, _, -, rfl⟩ := h
  cases g with
  | named => rfl
  | inline id =>
    show (σ.bodies ++ added)[id]?.getD [] = σ.bodies[id]?.getD []
    rw [Array.getElem?_append_left hg]

/-- What is named is the same, in the middle of the same calls. -/
theorem target (h : σ.Extends σ₁) (hc : σ₁.calls = σ.calls) (t : Target) :
    σ₁.target t = σ.target t := by
  obtain ⟨_, _, _, _, _, _, -, rfl⟩ := h
  cases hc
  rfl

/-- What lives by itself is the same then, too. -/
theorem roots (h : σ.Extends σ₁) (hc : σ₁.calls = σ.calls) : σ₁.roots = σ.roots := by
  obtain ⟨_, _, _, _, _, _, -, rfl⟩ := h
  cases hc
  rfl

/-- The registries stay as they are, in any case. -/
theorem registries (h : σ.Extends σ₁) :
    σ₁.registries = σ.registries ∧ σ₁.registryNames = σ.registryNames := by
  obtain ⟨_, _, _, _, _, _, -, rfl⟩ := h
  exact ⟨rfl, rfl⟩

end Extends

/-! ### Arguments worked out in two sessions -/

variable {α β γ δ : Type}

/-- The same computation in two sessions: it fails with the same error, or has related values in
sessions beside these. -/
def Eval.Twin (σ σ' : Session) (R : Session → Session → α → β → Prop) (c : Eval α) (c' : Eval β) :
    Prop :=
  (∃ e, c σ = .error e ∧ c' σ' = .error e) ∨
    ∃ a b σ₁ σ₁', c σ = .ok (a, σ₁) ∧ c' σ' = .ok (b, σ₁') ∧ σ.Beside σ₁ ∧ σ'.Beside σ₁' ∧
      R σ₁ σ₁' a b

namespace Eval.Twin

variable {σ σ' : Session} {R : Session → Session → α → β → Prop}
  {Q : Session → Session → γ → δ → Prop}

theorem pure {a : α} {b : β} (h : R σ σ' a b) :
    Twin σ σ' R (Pure.pure a : Eval α) (Pure.pure b : Eval β) :=
  .inr ⟨a, b, σ, σ', rfl, rfl, .refl σ, .refl σ', h⟩

theorem bind {c : Eval α} {c' : Eval β} {f : α → Eval γ} {f' : β → Eval δ}
    (hc : Twin σ σ' R c c')
    (hf : ∀ a b σ₁ σ₁', σ.Beside σ₁ → σ'.Beside σ₁' → R σ₁ σ₁' a b → Twin σ₁ σ₁' Q (f a) (f' b)) :
    Twin σ σ' Q (c >>= f) (c' >>= f') := by
  rcases hc with ⟨e, h, h'⟩ | ⟨a, b, σ₁, σ₁', h, h', hg, hg', hr⟩
  · exact .inl ⟨e, congrArg (·.bind fun p => f p.1 p.2) h, congrArg (·.bind fun p => f' p.1 p.2) h'⟩
  · have hb : (c >>= f) σ = f a σ₁ := congrArg (·.bind fun p => f p.1 p.2) h
    have hb' : (c' >>= f') σ' = f' b σ₁' := congrArg (·.bind fun p => f' p.1 p.2) h'
    unfold Twin
    rw [hb, hb']
    rcases hf a b σ₁ σ₁' hg hg' hr with he | ⟨x, y, σ₂, σ₂', h₁, h₂, hg₁, hg₁', hq⟩
    · exact .inl he
    · exact .inr ⟨x, y, σ₂, σ₂', h₁, h₂, hg.trans hg₁, hg'.trans hg₁', hq⟩

theorem mono {R' : Session → Session → α → β → Prop} {c : Eval α} {c' : Eval β}
    (h : Twin σ σ' R c c') (hr : ∀ σ₁ σ₁' a b, R σ₁ σ₁' a b → R' σ₁ σ₁' a b) :
    Twin σ σ' R' c c' := by
  rcases h with he | ⟨a, b, σ₁, σ₁', h, h', hg, hg', h₁⟩
  · exact .inl he
  · exact .inr ⟨a, b, σ₁, σ₁', h, h', hg, hg', hr _ _ _ _ h₁⟩

end Eval.Twin

end Session

/-- Values that are alike and literal. -/
structure Datum.LiteralTwin (d d' : Datum) : Prop where
  alike : d.Alike d'
  left : d.literal = true
  right : d'.literal = true

/-- Values that were passed to the same statement in two sessions: literal ones that are alike, or
generators of the family with the same body. -/
inductive Datum.PassedTwin (bodies : Bodies) (depth : Nat) (σ σ' : Session) : Datum → Datum → Prop
  | literal {d d' : Datum} (h : d.LiteralTwin d') : PassedTwin bodies depth σ σ' d d'
  | generator {g g' : Generator} (alike : (Datum.generator g).Alike (.generator g'))
    (left : σ.Knows g) (right : σ'.Knows g') (same : σ.bodyOf g = σ'.bodyOf g')
    (body : bodies (depth + 1) (σ.bodyOf g)) :
    PassedTwin bodies depth σ σ' (.generator g) (.generator g')

namespace Datum.PassedTwin

variable {bodies : Bodies} {depth : Nat} {σ σ' σ₁ σ₁' : Session} {d d' : Datum}

theorem alike (h : PassedTwin bodies depth σ σ' d d') : d.Alike d' := by
  cases h with
  | literal h => exact h.alike
  | generator alike => exact alike

/-- What was passed stays what it is. -/
theorem lasts (h : PassedTwin bodies depth σ σ' d d') (he : σ.Extends σ₁) (he' : σ'.Extends σ₁') :
    PassedTwin bodies depth σ₁ σ₁' d d' := by
  cases h with
  | literal h => exact .literal h
  | generator alike left right same body =>
    refine .generator alike (he.knows left) (he'.knows right) ?_ ?_
    · rw [he.bodyOf left, he'.bodyOf right, same]
    · rw [he.bodyOf left]
      exact body

end Datum.PassedTwin

/-- The same action in two sessions, by the values that it was passed. -/
inductive ActionTwin (bodies : Bodies) (naming : Nat → Prop) (depth : Nat) (σ σ' : Session) :
    Action Datum (List Stmt) → Action Datum (List Stmt) → Prop
  | select (up : Nat) (method : String) {argument argument' generator generator' : Option Datum}
    (lt : up < depth) (kind : Method.ofName? method = some .kind → naming depth)
    (arguments : Option.Rel (Datum.PassedTwin bodies depth σ σ') argument argument')
    (generators : Option.Rel (Datum.PassedTwin bodies depth σ σ') generator generator') :
    ActionTwin bodies naming depth σ σ' (.select (.enclosing up) method argument generator)
      (.select (.enclosing up) method argument' generator')
  | write (up : Nat) {text text' : Datum} (lt : up < depth) (alike : text.Alike text') :
    ActionTwin bodies naming depth σ σ' (.write (.enclosing up) text)
      (.write (.enclosing up) text')
  | assign (up : Nat) {properties properties' : Option Datum}
    {keywords keywords' : List (String × Datum)} (lt : up < depth)
    (alike : Option.Rel Datum.Alike properties properties')
    (keywords_alike : Datum.AllAlike keywords keywords') :
    ActionTwin bodies naming depth σ σ' (.assign (.enclosing up) properties keywords)
      (.assign (.enclosing up) properties' keywords')
  | define (up : Nat) (name : String) {value value' : Datum} (lt : up < depth)
    (alike : value.Alike value') :
    ActionTwin bodies naming depth σ σ' (.define (.enclosing up) name value)
      (.define (.enclosing up) name value')
  | check (up : Nat) (name : String) (lt : up < depth) :
    ActionTwin bodies naming depth σ σ' (.check (.enclosing up) name)
      (.check (.enclosing up) name)
  | var (up : Nat) (name : String) (lt : up < depth) :
    ActionTwin bodies naming depth σ σ' (.var (.enclosing up) name) (.var (.enclosing up) name)
  | reset (up : Nat) {generator generator' : Datum} (lt : up < depth)
    (passed : Datum.PassedTwin bodies depth σ σ' generator generator') :
    ActionTwin bodies naming depth σ σ' (.reset (.enclosing up) generator)
      (.reset (.enclosing up) generator')
  | attempt (body : List Stmt) (contained : bodies depth body) :
    ActionTwin bodies naming depth σ σ' (.attempt body) (.attempt body)

namespace Session

variable {bodies : Bodies} {naming : Nat → Prop} {depth : Nat} {σ σ' : Session}

theorem eval_literalTwin {e : Expr} (h : e.literal = true) (σ σ' : Session) :
    Eval.Twin σ σ' (fun _ _ => Datum.LiteralTwin) (eval e) (eval e) := by
  rcases eval_literal h σ σ' with he | ⟨d, d', k, k', h₁, h₂, ha, hl, hl'⟩
  · exact .inl he
  · exact .inr ⟨d, d', _, _, h₁, h₂, .of_log σ k rfl, .of_log σ' k' rfl, ⟨ha, hl, hl'⟩⟩

/-- The body of a generator written in place is the one it was made with. -/
theorem bodyOf_push (σ : Session) (body : List Stmt) :
    ({ σ with bodies := σ.bodies.push body } : Session).bodyOf (.inline σ.bodies.size) = body := by
  show (σ.bodies.push body)[σ.bodies.size]?.getD [] = body
  rw [Array.getElem?_push_size]
  rfl

theorem eval_passable {e : Expr} (h : e.Passable σ.generators bodies depth)
    (hg : σ.generators = σ'.generators) :
    Eval.Twin σ σ' (Datum.PassedTwin bodies depth) (eval e) (eval e) := by
  cases e with
  | inline body =>
    let σ₁ : Session := { σ with bodies := σ.bodies.push body }
    let σ₁' : Session := { σ' with bodies := σ'.bodies.push body }
    refine .inr ⟨.generator (.inline σ.bodies.size), .generator (.inline σ'.bodies.size), σ₁, σ₁',
      rfl, rfl, (Eval.Keeps.newGenerator body).beside rfl, (Eval.Keeps.newGenerator body).beside rfl, ?_⟩
    refine .generator ⟨rfl, ?_⟩ ?_ ?_ ?_ ?_
    · intro i hi
      cases List.mem_singleton.1 hi
      exact fun n => ⟨nofun, nofun⟩
    · show σ.bodies.size < (σ.bodies.push body).size
      rw [Array.size_push]
      exact Nat.lt_succ_self _
    · show σ'.bodies.size < (σ'.bodies.push body).size
      rw [Array.size_push]
      exact Nat.lt_succ_self _
    · rw [bodyOf_push, bodyOf_push]
    · rw [bodyOf_push]
      exact h
  | named name =>
    refine .pure (.generator ⟨rfl, ?_⟩ trivial trivial ?_ h)
    · intro i hi
      cases List.mem_singleton.1 hi
      exact fun n => ⟨nofun, nofun⟩
    · show (σ.generators.find? name).getD [] = (σ'.generators.find? name).getD []
      rw [hg]
  | _ => exact (eval_literalTwin h σ σ').mono fun _ _ _ _ h => .literal h

theorem evalOption_twin {R : Session → Session → Datum → Datum → Prop} {e : Option Expr}
    (h : ∀ x ∈ e, Eval.Twin σ σ' R (eval x) (eval x)) :
    Eval.Twin σ σ' (fun σ₁ σ₁' => Option.Rel (R σ₁ σ₁')) (Action.evaluateOption eval e)
      (Action.evaluateOption eval e) := by
  cases e with
  | none => exact .pure .none
  | some x => exact (h x rfl).bind fun a b σ₁ σ₁' _ _ hr => .pure (.some hr)

theorem evalNamed_twin {keywords : List (String × Expr)} (h : ∀ e ∈ keywords, e.2.literal = true)
    (σ σ' : Session) :
    Eval.Twin σ σ' (fun _ _ => Datum.AllAlike) (Action.evaluateNamed eval keywords)
      (Action.evaluateNamed eval keywords) := by
  unfold Action.evaluateNamed
  induction keywords generalizing σ σ' with
  | nil => exact .pure .nil
  | cons e rest ih =>
    rw [List.mapM_cons]
    refine Eval.Twin.bind (R := fun _ _ p p' => p.1 = p'.1 ∧ p.2.Alike p'.2) ?_ ?_
    · exact (eval_literalTwin (h e List.mem_cons_self) σ σ').bind fun a b σ₁ σ₁' _ _ hr =>
        .pure ⟨rfl, hr.alike⟩
    · intro p p' σ₁ σ₁' _ _ hp
      exact (ih (fun e he => h e (List.mem_cons_of_mem _ he)) σ₁ σ₁').bind fun a b σ₂ σ₂' _ _ hr =>
        .pure (.cons hp hr)

/-- The arguments of a contained statement are worked out alike. -/
theorem evalAction_contained {action : Action Expr (List Stmt)}
    (h : action.ContainedIn σ.generators bodies naming depth)
    (hg : σ.generators = σ'.generators) :
    Eval.Twin σ σ' (ActionTwin bodies naming depth) (evalAction action) (evalAction action) := by
  unfold evalAction
  cases action with
  | select t method argument generator =>
    cases t with
    | handle => cases h
    | enclosing up =>
      obtain ⟨hlt, hkind, ha, hgen⟩ := h
      refine (evalOption_twin fun x hx => eval_passable (ha x hx) hg).bind
        fun a a' σ₁ σ₁' hg₁ hg₁' hr => ?_
      have hg₂ : σ₁.generators = σ₁'.generators := by rw [(Extends.of_beside hg₁).generators,
        (Extends.of_beside hg₁').generators, hg]
      refine (evalOption_twin fun x hx =>
        eval_passable ((Extends.of_beside hg₁).generators ▸ hgen x hx) hg₂).bind
        fun b b' σ₂ σ₂' hg₃ hg₃' hq => .pure (.select up method hlt hkind ?_ hq)
      cases hr with
      | none => exact .none
      | some hr => exact .some (hr.lasts (.of_beside hg₃) (.of_beside hg₃'))
  | write t text =>
    cases t with
    | handle => cases h
    | enclosing up =>
      exact (eval_literalTwin h.2 σ σ').bind fun a b _ _ _ _ hr => .pure (.write up h.1 hr.alike)
  | assign t properties keywords =>
    cases t with
    | handle => cases h
    | enclosing up =>
      refine (evalOption_twin fun x hx => eval_literalTwin (h.2.1 x hx) σ σ').bind
        fun a b σ₁ σ₁' _ _ hr => (evalNamed_twin h.2.2 σ₁ σ₁').bind fun c d _ _ _ _ hq =>
          .pure (.assign up h.1 ?_ hq)
      cases hr with
      | none => exact .none
      | some hr => exact .some hr.alike
  | define t name value =>
    cases t with
    | handle => cases h
    | enclosing up =>
      exact (eval_literalTwin h.2 σ σ').bind fun a b _ _ _ _ hr =>
        .pure (.define up name h.1 hr.alike)
  | check t name =>
    cases t with
    | handle => cases h
    | enclosing up => exact .pure (.check up name h)
  | var t name =>
    cases t with
    | handle => cases h
    | enclosing up => exact .pure (.var up name h)
  | reset t generator =>
    cases t with
    | handle => cases h
    | enclosing up =>
      exact (eval_passable h.2 hg).bind fun a b _ _ _ _ hr => .pure (.reset up h.1 hr)
  | attempt body => exact .pure (.attempt body h)
  | _ => cases h

end Session

/-! ### Some self-contained bodies -/

namespace Body

/-- Referring to the property that `filling` defines. -/
def referring : List Stmt := [.mk (.var (.enclosing 0) "k") none none]

/-- Writing once more on what is filled beneath. -/
def rewriting : List Stmt := [.mk (.write (.enclosing 0) (.text "z;")) none none]

/-- Filling a rule set beneath, and filling it again. -/
def refilling : List Stmt := [
  .mk (.var (.enclosing 1) "k") none none,
  .mk (.write (.enclosing 0) (.text "y;")) none none,
  .mk (.reset (.enclosing 0) (.inline rewriting)) none none]

/-- Defining a property, referring to it, and filling a rule set beneath. -/
def filling : List Stmt := [
  .mk (.define (.enclosing 0) "k" (.text "v")) none none,
  .mk (.attempt referring) none none,
  .mk (.select (.enclosing 0) "select" (some (.text " a")) (some (.inline refilling))) none none,
  .mk (.write (.enclosing 0) (.text "x;")) none none]

/-- The body that fills a rule set beneath. -/
def nesting : List Stmt := [
  .mk (.select (.enclosing 0) "select" (some (.text " a")) (some (.inline rewriting))) none none]

end Body

/-- Such a body is self-contained, by the family of the bodies that are in it. -/
theorem Session.selfContained_filling (σ : Session) (className : Datum) :
    σ.SelfContained className Body.filling := by
  refine ⟨fun depth body => (depth, body) ∈ [(1, Body.filling), (1, Body.referring),
    (2, Body.refilling), (3, Body.rewriting)], fun depth body hb s hs => ?_, List.mem_cons_self⟩
  simp only [List.mem_cons, Prod.mk.injEq, List.not_mem_nil, or_false] at hb
  rcases hb with ⟨rfl, rfl⟩ | ⟨rfl, rfl⟩ | ⟨rfl, rfl⟩ | ⟨rfl, rfl⟩
  · simp only [Body.filling, List.mem_cons, List.not_mem_nil, or_false] at hs
    rcases hs with rfl | rfl | rfl | rfl
    · exact ⟨⟨by decide, rfl⟩, rfl, rfl⟩
    · exact ⟨by simp [Stmt.action, Action.ContainedIn], rfl, rfl⟩
    · refine ⟨⟨by decide, fun h => ?_, fun e he => ?_, fun e he => ?_⟩, rfl, rfl⟩
      · exact absurd h (by decide)
      · cases he
        rfl
      · cases he
        simp [Expr.Passable]
    · exact ⟨⟨by decide, rfl⟩, rfl, rfl⟩
  · simp only [Body.referring, List.mem_cons, List.not_mem_nil, or_false] at hs
    subst hs
    exact ⟨show 0 < 1 by decide, rfl, rfl⟩
  · simp only [Body.refilling, List.mem_cons, List.not_mem_nil, or_false] at hs
    rcases hs with rfl | rfl | rfl
    · exact ⟨show 1 < 2 by decide, rfl, rfl⟩
    · exact ⟨⟨by decide, rfl⟩, rfl, rfl⟩
    · exact ⟨⟨by decide, by simp [Expr.Passable]⟩, rfl, rfl⟩
  · simp only [Body.rewriting, List.mem_cons, List.not_mem_nil, or_false] at hs
    subst hs
    exact ⟨⟨by decide, rfl⟩, rfl, rfl⟩

theorem Session.selfContained_nesting (σ : Session) (className : Datum) :
    σ.SelfContained className Body.nesting := by
  refine ⟨fun depth body => (depth, body) ∈ [(1, Body.nesting), (2, Body.rewriting)],
    fun depth body hb s hs => ?_, List.mem_cons_self⟩
  simp only [List.mem_cons, Prod.mk.injEq, List.not_mem_nil, or_false] at hb
  rcases hb with ⟨rfl, rfl⟩ | ⟨rfl, rfl⟩
  · simp only [Body.nesting, List.mem_cons, List.not_mem_nil, or_false] at hs
    subst hs
    refine ⟨⟨by decide, fun h => absurd h (by decide), fun e he => ?_, fun e he => ?_⟩, rfl, rfl⟩
    · cases he
      rfl
    · cases he
      simp [Expr.Passable]
  · simp only [Body.rewriting, List.mem_cons, List.not_mem_nil, or_false] at hs
    subst hs
    exact ⟨⟨by decide, rfl⟩, rfl, rfl⟩

end RuleTree
