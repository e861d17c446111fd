import RuleTree.Proofs.Rebuilding.Contained
import RuleTree.Proofs.Rebuilding.Mirror
import RuleTree.Session.Begin

/-!
# Two sessions side by side

The same self-contained body runs in two sessions, each on a rule set of its own, the root.

* `Session.Compatible`: what two sessions have to agree on for a body to do the same in both;
* `Session.Equips`: everything that a body is run with is there in another session as well;
* `Ground`: the two sessions at the start, the roots with the calls that fill them, and the family
  of bodies;
* `Ground.Fit`: what the two have in common at the start;
* `Purpose.Fills`: the calls that fill a root;
* `Ground.Onward`, `Ground.Twins`: the sessions later on;
* `Ground.PurposeTwin`, `Ground.Frames`: the calls on top of the two roots, and what their bodies
  are run on;
* `Ground.Frames.target`: a statement acts on rule sets one of which stands for the other;
* `Ground.Shut`, `Ground.Twins.sees`: custom properties are visible from both, if what is visible
  above the roots makes no difference.
-/

namespace RuleTree

/-- Running a body to fill a rule set: one that is given back, or the text of its tree, one that is
then kept for a host, or one that is then attached to its parent. -/
inductive Purpose.Fills (n : NodeId) : Purpose → Prop
  | build (out : Output) : Fills n (.build n out)
  | reset (registry : Option RegistryId) (out : Output) : Fills n (.reset n registry out)
  | register (registry : RegistryId) (host : Identity) (out : Output) :
    Fills n (.register registry host n out)
  | select (fragment : Datum) (className : Option Datum) : Fills n (.select n fragment className)

namespace Purpose.Fills

variable {n : NodeId} {purpose : Purpose}

theorem subject (h : purpose.Fills n) : purpose.subject? = some (.node n) := by
  cases h <;> rfl

theorem link (h : purpose.Fills n) : .node n ∈ purpose.links := by
  cases h with
  | register => exact List.mem_cons_of_mem _ List.mem_cons_self
  | _ => exact List.mem_cons_self

end Purpose.Fills

/-- Keeping no result. -/
structure Tag.Bare (tag : Tag) : Prop where
  handle : tag.handle = none
  saved : tag.saved = none

/-- What two sessions have to agree on for a body to do the same in both: the generators of the
script, whether a log is kept, and what may be asked for class names. -/
structure Session.Compatible (L R : Session) (className : Datum) (bodies : Bodies) : Prop where
  generators : L.generators = R.generators
  log : L.log.isSome = R.log.isSome
  closes : R.Closes className bodies
  /-- a generator that is asked for class names is the same one -/
  naming : ∀ g, className = .generator g → R.Knows g → L.Knows g ∧ L.bodyOf g = R.bodyOf g
  /-- and so is a host -/
  host : ∀ h, className = .host h → L.hosts[h]? = R.hosts[h]?

theorem Session.Compatible.refl {σ : Session} {className : Datum} {bodies : Bodies}
    (h : σ.Closes className bodies) : σ.Compatible σ className bodies :=
  ⟨rfl, rfl, h, fun _ _ hk => ⟨hk, rfl⟩, fun _ _ => rfl⟩

/-- Everything that a body is run with in a session is there in another one as well. -/
structure Session.Equips (σ σ₁ : Session) : Prop where
  generators : σ₁.generators = σ.generators
  log : σ₁.log.isSome = σ.log.isSome
  hosts : σ₁.hosts = σ.hosts
  bodies : ∀ g, σ.Knows g → σ₁.Knows g ∧ σ₁.bodyOf g = σ.bodyOf g

namespace Session.Equips

variable {σ σ₁ σ₂ : Session}

theorem of_extends (h : σ.Extends σ₁) : σ.Equips σ₁ where
  generators := h.generators
  log := h.log
  hosts := h.hosts
  bodies := fun _ hg => ⟨h.knows hg, h.bodyOf hg⟩

/-- A session with other registries equips this one with as much. -/
theorem of_registries (σ : Session) (registries : Array Registry)
    (registryNames : Table RegistryId) : σ.Equips { σ with registries, registryNames } :=
  ⟨rfl, rfl, rfl, fun g hg => by cases g <;> exact ⟨hg, rfl⟩⟩

theorem trans (h : σ.Equips σ₁) (h' : σ₁.Equips σ₂) : σ.Equips σ₂ where
  generators := h'.generators.trans h.generators
  log := h'.log.trans h.log
  hosts := h'.hosts.trans h.hosts
  bodies := fun g hg => by
    obtain ⟨hk, hb⟩ := h.bodies g hg
    obtain ⟨hk', hb'⟩ := h'.bodies g hk
    exact ⟨hk', hb'.trans hb⟩

theorem compatible (h : σ.Equips σ₁) {className : Datum} {bodies : Bodies}
    (hc : σ.Closes className bodies) : σ₁.Compatible σ className bodies where
  generators := h.generators
  log := h.log
  closes := hc
  naming := fun g _ hk => h.bodies g hk
  host := fun k _ => congrArg (·[k]?) h.hosts

end Session.Equips

/-- Two sessions at the start, the rule sets that a body is run on, the text that stands before the
selectors of the first one, the calls that run the body, with those below them, the family that it
belongs to, and a bound below which the selectors of both stores are the same. -/
structure Ground where
  left : Session
  right : Session
  root : NodeId
  root' : NodeId
  root_lt : root < left.store.next
  root'_lt : root' < right.store.next
  lead : String
  leading : Leading lead
  purpose : Purpose
  purpose' : Purpose
  fills : purpose.Fills root
  fills' : purpose'.Fills root'
  tag : Tag
  tag' : Tag
  outer : List Call
  outer' : List Call
  bodies : Bodies
  bound : NodeId

namespace Ground

variable (γ : Ground)

/-- The stores at the start. -/
def pairing : Pairing where
  left := γ.left.store
  right := γ.right.store
  root := γ.root
  root' := γ.root'
  root_lt := γ.root_lt
  root'_lt := γ.root'_lt
  lead := γ.lead
  leading := γ.leading

theorem image_root : γ.pairing.image γ.root' = γ.root := Pairing.image_root

/-- The naming option of both trees. -/
def className : Datum := (γ.right.store.optionsOf γ.root').className

/-- A statement of the family. -/
def Contained (depth : Nat) (s : Stmt) : Prop :=
  s.ContainedIn γ.right.generators γ.bodies (γ.right.MayName γ.bodies γ.className) depth

/-- What the two sessions have in common at the start. The root of the second one is empty. So is
the other root, unless the comparison is not closed and no reset empties it. -/
structure Fit (closed : Prop) : Prop
    extends γ.left.Compatible γ.right γ.className γ.bodies where
  options : γ.left.store.optionsOf γ.root = γ.right.store.optionsOf γ.root'
  selector : γ.pairing.Led
  refers : ∀ m, .node m ∈ (γ.right.store.get γ.root').selector.identities → m < γ.bound
  bound_le : γ.bound ≤ γ.root
  bound_le' : γ.bound ≤ γ.root'
  shared : ∀ m < γ.bound, (γ.left.store.get m).selector = (γ.right.store.get m).selector
  empty' : (γ.right.store.get γ.root').text = "" ∧ (γ.right.store.get γ.root').children = [] ∧
    (γ.right.store.get γ.root').scope = .empty
  mode : ((γ.left.store.get γ.root).text = "" ∧ (γ.left.store.get γ.root).children = [] ∧
      (γ.left.store.get γ.root).scope = .empty) ∨
    ¬closed ∧ γ.right.store.clearsOnReset γ.root' = false

/-- Having gone on from sessions: with their generators, and stores that mirror each other. -/
structure Onward (σ σ' σ₁ σ₁' : Session) : Prop where
  left : σ.Extends σ₁
  right : σ'.Extends σ₁'
  store : γ.pairing.Mirrors σ₁.store σ₁'.store

/-- The sessions later on. -/
abbrev Twins (σ σ' : Session) : Prop := γ.Onward γ.left γ.right σ σ'

variable {γ} {closed : Prop} {σ σ' σ₁ σ₁' σ₂ σ₂' : Session} {cs cs' : List Call}
  {subjects : List (Option NodeId)} {n : NodeId}

namespace Onward

theorem trans (h : γ.Onward σ σ' σ₁ σ₁') (h' : γ.Onward σ₁ σ₁' σ₂ σ₂') : γ.Onward σ σ' σ₂ σ₂' where
  left := h.left.trans h'.left
  right := h.right.trans h'.right
  store := h'.store

/-- From where sessions have gone on, they go on. -/
theorem refl (h : γ.Onward σ σ' σ₁ σ₁') : γ.Onward σ₁ σ₁' σ₁ σ₁' where
  left := .refl σ₁
  right := .refl σ₁'
  store := h.store

/-- Two sessions go on if their stores are replaced by stores that mirror each other. -/
theorem of_store (_ : γ.Onward σ σ' σ₁ σ₁') {s s' : Store} (hs : γ.pairing.Mirrors s s') :
    γ.Onward σ₁ σ₁' { σ₁ with store := s } { σ₁' with store := s' } where
  left := .of_kept rfl
  right := .of_kept rfl
  store := hs

end Onward

theorem Twins.onward (h : γ.Twins σ σ') (ho : γ.Onward σ σ' σ₁ σ₁') : γ.Twins σ₁ σ₁' := h.trans ho

theorem Twins.log (h : γ.Twins σ σ') (hf : γ.Fit closed) : σ.log.isSome = σ'.log.isSome := by
  rw [h.left.log, h.right.log, hf.log]

theorem Twins.generators (h : γ.Twins σ σ') (hf : γ.Fit closed) : σ.generators = σ'.generators := by
  rw [h.left.generators, h.right.generators, hf.generators]

/-! ### The calls on top -/

/-- What the same statement waits for in both sessions, and what its body is run on, if on anything:
a rule set of the second session, or something else. -/
inductive PurposeTwin (γ : Ground) (σ σ' : Session) (subjects : List (Option NodeId)) :
    Purpose → Purpose → List (Option NodeId) → Prop
  | select {child p : NodeId} {fragment fragment' : Datum} (className className' : Option Datum)
    (le : γ.right.store.next ≤ child) (lt : child < σ'.store.next)
    (parent : (σ'.store.get child).parent = some p) (mem : some p ∈ subjects)
    (alike : fragment.Alike fragment') :
    PurposeTwin γ σ σ' subjects (.select (γ.pairing.image child) fragment className)
      (.select child fragment' className') [some child]
  | reset {n : NodeId} (mem : some n ∈ subjects) :
    PurposeTwin γ σ σ' subjects (.reset (γ.pairing.image n) none .node) (.reset n none .node)
      [some n]
  | name {n : NodeId} {kind kind' : Datum} {generator generator' : Option Datum}
    (callee callee' : Datum) (mem : some n ∈ subjects) (other : ∀ m, kind ≠ .node m)
    (other' : ∀ m, kind' ≠ .node m)
    (passed : Option.Rel (Datum.PassedTwin γ.bodies subjects.length σ σ') generator generator') :
    PurposeTwin γ σ σ' subjects (.name (γ.pairing.image n) kind generator callee)
      (.name n kind' generator' callee') [none]
  | attempt : PurposeTwin γ σ σ' subjects .attempt .attempt []

/-- The calls on top of the two roots, down to these. -/
inductive Frames (γ : Ground) (σ σ' : Session) :
    List (Option NodeId) → List Call → List Call → Prop
  | root {c c' : Call} (rest : c.rest = c'.rest) (contained : ∀ s ∈ c'.rest, γ.Contained 1 s)
    (purpose : c.purpose = γ.purpose) (purpose' : c'.purpose = γ.purpose') (tag : c.tag = γ.tag)
    (tag' : c'.tag = γ.tag') : Frames γ σ σ' [some γ.root'] (c :: γ.outer) (c' :: γ.outer')
  | inner {subjects pushed : List (Option NodeId)} {cs cs' : List Call} {c c' : Call}
    (below : Frames γ σ σ' subjects cs cs')
    (purpose : PurposeTwin γ σ σ' subjects c.purpose c'.purpose pushed) (rest : c.rest = c'.rest)
    (contained : ∀ s ∈ c'.rest, γ.Contained (pushed ++ subjects).length s)
    (tag : c.tag.Bare) (tag' : c'.tag.Bare) :
    Frames γ σ σ' (pushed ++ subjects) (c :: cs) (c' :: cs')

/-- Later sessions: with the generators of the earlier ones, and the rule sets made as they were. -/
structure Later (σ σ' σ₁ σ₁' : Session) : Prop where
  left : σ.Extends σ₁
  right : σ'.Extends σ₁'
  next : σ'.store.next ≤ σ₁'.store.next
  parent : ∀ n < σ'.store.next, (σ₁'.store.get n).parent = (σ'.store.get n).parent

theorem PurposeTwin.later {purpose purpose' : Purpose} {pushed : List (Option NodeId)}
    (h : PurposeTwin γ σ σ' subjects purpose purpose' pushed) (hl : Later σ σ' σ₁ σ₁') :
    PurposeTwin γ σ₁ σ₁' subjects purpose purpose' pushed := by
  cases h with
  | select className className' le lt parent mem alike =>
    exact .select className className' le (Nat.lt_of_lt_of_le lt hl.next)
      ((hl.parent _ lt).trans parent) mem alike
  | reset mem => exact .reset mem
  | name callee callee' mem other other' passed =>
    refine .name callee callee' mem other other' ?_
    cases passed with
    | none => exact .none
    | some passed => exact .some (passed.lasts hl.left hl.right)
  | attempt => exact .attempt

namespace Frames

theorem later (h : Frames γ σ σ' subjects cs cs') (hl : Later σ σ' σ₁ σ₁') :
    Frames γ σ₁ σ₁' subjects cs cs' := by
  induction h with
  | root rest contained purpose purpose' tag tag' =>
    exact .root rest contained purpose purpose' tag tag'
  | inner _ purpose rest contained tag tag' ih =>
    exact .inner ih (purpose.later hl) rest contained tag tag'

/-- What bodies are run on is the root, or was made under what an outer one is run on. -/
theorem parent (h : Frames γ σ σ' subjects cs cs') {n : NodeId} :
    some n ∈ subjects → n = γ.root' ∨ γ.right.store.next ≤ n ∧ n < σ'.store.next ∧
      ∃ p, (σ'.store.get n).parent = some p ∧ some p ∈ subjects := by
  induction h with
  | root => exact fun hn => .inl (Option.some.inj (List.mem_singleton.1 hn))
  | @inner subjects pushed cs cs' c c' below purpose rest contained tag tag' ih =>
    have lift (hn : some n ∈ subjects) :
        n = γ.root' ∨ γ.right.store.next ≤ n ∧ n < σ'.store.next ∧
          ∃ p, (σ'.store.get n).parent = some p ∧ some p ∈ pushed ++ subjects :=
      (ih hn).imp_right fun ⟨h₁, h₂, p, hp, hm⟩ => ⟨h₁, h₂, p, hp, List.mem_append_right _ hm⟩
    intro hn
    rcases List.mem_append.1 hn with hn | hn
    · generalize c.purpose = purpose₁ at purpose
      generalize c'.purpose = purpose₂ at purpose
      cases purpose with
      | select _ _ le lt parent mem =>
        cases List.mem_singleton.1 hn
        exact .inr ⟨le, lt, _, parent, List.mem_append_right _ mem⟩
      | reset mem =>
        cases List.mem_singleton.1 hn
        exact lift mem
      | name => cases List.mem_singleton.1 hn
      | attempt => cases hn
    · exact lift hn

theorem inner_of_mem (h : Frames γ σ σ' subjects cs cs') (hn : some n ∈ subjects) :
    γ.pairing.Inner σ'.store n :=
  (h.parent hn).imp_right fun ⟨h₁, h₂, _⟩ => ⟨h₁, h₂⟩

/-- What bodies are run on is kept alive by the calls. -/
theorem links (h : Frames γ σ σ' subjects cs cs') {n : NodeId} :
    some n ∈ subjects → .node (γ.pairing.image n) ∈ cs.flatMap Call.links ∧
      .node n ∈ cs'.flatMap Call.links := by
  have mem {c : Call} {cs : List Call} {i : Identity} (hi : i ∈ c.purpose.links) :
      i ∈ (c :: cs).flatMap Call.links :=
    List.mem_append_left _ (List.mem_append_right _ hi)
  induction h with
  | root _ _ purpose purpose' =>
    intro hn
    cases List.mem_singleton.1 hn
    rw [γ.image_root]
    exact ⟨mem (purpose ▸ γ.fills.link), mem (purpose' ▸ γ.fills'.link)⟩
  | @inner subjects pushed cs cs' c c' below purpose rest contained tag tag' ih =>
    have lift (hn : some n ∈ subjects) : .node (γ.pairing.image n) ∈ (c :: cs).flatMap Call.links ∧
        .node n ∈ (c' :: cs').flatMap Call.links :=
      ⟨List.mem_append_right _ (ih hn).1, List.mem_append_right _ (ih hn).2⟩
    intro hn
    rcases List.mem_append.1 hn with hn | hn
    · generalize hp : c.purpose = purpose₁ at purpose
      generalize hp' : c'.purpose = purpose₂ at purpose
      cases purpose with
      | select =>
        cases List.mem_singleton.1 hn
        exact ⟨mem (hp ▸ List.mem_cons_self), mem (hp' ▸ List.mem_cons_self)⟩
      | reset m =>
        cases List.mem_singleton.1 hn
        exact lift m
      | name => cases List.mem_singleton.1 hn
      | attempt => cases hn
    · exact lift hn

end Frames

/-- What a body is run on in both sessions. -/
def Stands (γ : Ground) (subject : Option NodeId) (d d' : Datum) : Prop :=
  match subject with
  | some n => d = .node (γ.pairing.image n) ∧ d' = .node n
  | none => (∀ m, d ≠ .node m) ∧ ∀ m, d' ≠ .node m

theorem Frames.enclosing (h : Frames γ σ σ' subjects cs cs') {up : Nat}
    {subject : Option NodeId} : subjects[up]? = some subject →
      ∃ d d', (cs.filterMap fun c => c.purpose.subject?)[up]? = some d ∧
        (cs'.filterMap fun c => c.purpose.subject?)[up]? = some d' ∧ γ.Stands subject d d' := by
  induction h generalizing up with
  | @root c c' rest contained purpose purpose' =>
    have hs : c.purpose.subject? = some (.node γ.root) := purpose ▸ γ.fills.subject
    have hs' : c'.purpose.subject? = some (.node γ.root') := purpose' ▸ γ.fills'.subject
    intro hu
    cases up with
    | zero =>
      cases hu
      rw [List.filterMap_cons_some (f := fun c : Call => c.purpose.subject?) hs,
        List.filterMap_cons_some (f := fun c : Call => c.purpose.subject?) hs']
      exact ⟨_, _, rfl, rfl, congrArg Datum.node γ.image_root.symm, rfl⟩
    | succ up => cases hu
  | @inner subjects pushed cs cs' c c' below purpose rest contained tag tag' ih =>
    -- one more body around the statement, or the same ones
    have one {s : Option NodeId} {d d' : Datum} (hp : pushed = [s])
        (hd : c.purpose.subject? = some d) (hd' : c'.purpose.subject? = some d')
        (hs : γ.Stands s d d') (hu : (pushed ++ subjects)[up]? = some subject) :
        ∃ d d', ((c :: cs).filterMap fun c => c.purpose.subject?)[up]? = some d ∧
          ((c' :: cs').filterMap fun c => c.purpose.subject?)[up]? = some d' ∧
            γ.Stands subject d d' := by
      subst hp
      rw [List.filterMap_cons_some (f := fun c : Call => c.purpose.subject?) hd,
        List.filterMap_cons_some (f := fun c : Call => c.purpose.subject?) hd']
      cases up with
      | zero =>
        cases hu
        exact ⟨d, d', rfl, rfl, hs⟩
      | succ up => exact ih hu
    intro hu
    generalize hp : c.purpose = purpose₁ at purpose
    generalize hp' : c'.purpose = purpose₂ at purpose
    cases purpose with
    | select => exact one rfl (hp ▸ rfl) (hp' ▸ rfl) ⟨rfl, rfl⟩ hu
    | reset => exact one rfl (hp ▸ rfl) (hp' ▸ rfl) ⟨rfl, rfl⟩ hu
    | name callee callee' mem other other' => exact one rfl (hp ▸ rfl) (hp' ▸ rfl) ⟨other, other'⟩ hu
    | attempt =>
      have hn : c.purpose.subject? = none := hp ▸ rfl
      have hn' : c'.purpose.subject? = none := hp' ▸ rfl
      rw [List.filterMap_cons_none (f := fun c : Call => c.purpose.subject?) hn,
        List.filterMap_cons_none (f := fun c : Call => c.purpose.subject?) hn']
      exact ih hu

/-- A statement acts on what stands for each other, or on no rule set at all. -/
theorem Frames.target (h : Frames γ σ σ' subjects σ.calls σ'.calls) {up : Nat}
    (hu : up < subjects.length) : γ.Stands subjects[up] (σ.target (.enclosing up))
      (σ'.target (.enclosing up)) := by
  obtain ⟨d, d', hd, hd', hs⟩ := h.enclosing (List.getElem?_eq_getElem hu)
  unfold Session.target Session.enclosing
  simp only [hd, hd', Option.getD_some]
  exact hs

/-! ### What is visible -/

theorem alive_of_calls {i : Identity} (h : i ∈ σ.calls.flatMap Call.links) : σ.alive i = true := by
  refine Session.has_livingWith_iff.2 (.inr (.start (List.mem_append_left _ ?_)))
  unfold Session.roots
  exact List.mem_append_left _ (List.mem_append_right _ h)

/-- What is visible above the roots makes no difference: what is so above the second one is so above
the first one, and nothing else is if the comparison is closed. -/
structure Shut (γ : Ground) (closed : Prop) (σ σ' : Session) : Prop where
  up : ∀ name, σ'.seesAbove γ.root' name = true → σ.seesAbove γ.root name = true
  same : closed → ∀ name, σ.seesAbove γ.root name = σ'.seesAbove γ.root' name

theorem Twins.sees (h : γ.Twins σ σ') (hf : γ.Fit closed)
    (hc : Frames γ σ σ' subjects σ.calls σ'.calls) (hs : Shut γ closed σ σ')
    (name : String) : some n ∈ subjects →
      (σ'.sees n name = true → σ.sees (γ.pairing.image n) name = true) ∧
      (closed → σ.sees (γ.pairing.image n) name = σ'.sees n name) := by
  induction n using Nat.strongRecOn with
  | ind n ih =>
    intro hn
    have hin := hc.inner_of_mem hn
    have hscope : (σ.store.get (γ.pairing.image n)).scope.contains name =
        ((γ.pairing.before n).scope.contains name || (σ'.store.get n).scope.contains name) := by
      rw [h.store.scope n hin, Table.contains_insertAll]
    rw [Session.sees_eq σ, Session.sees_eq σ', hscope]
    rcases hc.parent hn with rfl | ⟨hle, hlt, p, hp, hm⟩
    · rw [γ.image_root]
      refine ⟨fun ht => ?_, fun hcl => ?_⟩
      · rw [Bool.or_eq_true] at ht
        rcases ht with ht | ht
        · rw [ht, Bool.or_true, Bool.true_or]
        · rw [hs.up name ht, Bool.or_true]
      · have hb : (γ.pairing.before γ.root').scope = .empty := by
          rw [show γ.pairing.before γ.root' = _ from Pairing.before_root]
          rcases hf.mode with hm | hm
          · exact hm.2.2
          · exact absurd hcl hm.1
        rw [hb, hs.same hcl name]
        rfl
    · obtain ⟨p', hpi, hp₁, hp₂⟩ := (h.store.made n hle hlt).parent
      cases hp.symm.trans hp₁
      have hl := hc.links hm
      have halive : σ.parent? (γ.pairing.image n) = some (γ.pairing.image p) := by
        unfold Session.parent?
        rw [hp₂, Option.filter_some, if_pos (alive_of_calls hl.1)]
      have halive' : σ'.parent? n = some p := by
        unfold Session.parent?
        rw [hp, Option.filter_some, if_pos (alive_of_calls hl.2)]
      have hb : (γ.pairing.before n).scope.contains name = false := by
        rw [Pairing.before_of_le hle]
        rfl
      obtain ⟨h₁, h₂⟩ := ih p (Forest.lt_of_parent hp) hm
      rw [hb, Session.seesAbove_of_parent halive, Session.seesAbove_of_parent halive',
        Bool.false_or]
      refine ⟨fun ht => ?_, fun hcl => by rw [h₂ hcl]⟩
      rw [Bool.or_eq_true] at ht ⊢
      exact ht.imp_right h₁

end Ground

end RuleTree
