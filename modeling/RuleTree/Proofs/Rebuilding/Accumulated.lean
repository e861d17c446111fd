import RuleTree.Proofs.Blocks.Awaiting
import RuleTree.Proofs.Rebuilding.Compared

/-!
# Rebuilding what is kept on reset

* `Store.Gains`: a rule set has got, behind what it held before, what another one holds;
* `Machine.Level.gains`: a rule set that is filled once more gains what a fresh one is filled with;
* `Machine.Adds`, `Machine.resets_adding`: a reset by a self-contained generator adds what a build
  gives, as long as no statement of the build fails.
-/

namespace RuleTree

/-- A rule set of a store has got, in a later one, everything that a rule set of a third store
holds: its text, its custom properties and copies of its children, behind what was there before. -/
structure Store.Gains (s s₁ : Store) (r : NodeId) (s' : Store) (n : NodeId) : Prop where
  selector : (s₁.get r).selector = (s.get r).selector
  text : (s₁.get r).text = (s.get r).text ++ (s'.get n).text
  scope : (s₁.get r).scope = (s.get r).scope.insertAll (s'.get n).scope.entries
  /-- the children are the old ones, and copies of the new ones -/
  children : ∃ copies, (s₁.get r).children = (s.get r).children ++ copies ∧
    copies.map s₁.shape = (s'.get n).children.map s'.shape
  /-- the trees of the old children have not changed -/
  untouched : ∀ c ∈ (s.get r).children, ∀ x ∈ s.forest.preorder c, s₁.get x = s.get x

namespace Machine

namespace Level

variable {m m' m₁ m₁' : Machine} {t : Target} {r : NodeId} {g : Generator}
  {options : List (String × Datum)} {bodies : Bodies} {closed : Prop}
  (h : m.Level closed m' t r g options bodies)
include h

theorem left_of_kept (keeps : m.session.store.clearsOnReset r = false) :
    h.pairing.left = m.session.store := by
  show m.session.store.clearForReset r = _
  unfold Store.clearForReset
  rw [keeps]
  rfl

/-- A rule set that is not emptied gains what the other one gets. -/
theorem gains (keeps : m.session.store.clearsOnReset r = false) {s' : Store}
    (mirrors : h.pairing.Mirrors m₁.session.store s') :
    m.session.store.Gains m₁.session.store r s' m'.session.store.next := by
  have hl := h.left_of_kept keeps
  have hbefore : h.pairing.before h.pairing.root' = m.session.store.get r :=
    Pairing.before_root.trans (congrArg (·.get r) hl)
  have htext := mirrors.text _ .root
  have hscope := mirrors.scope _ .root
  have hchildren := mirrors.children _ .root
  rw [Pairing.image_root, hbefore] at htext hscope hchildren
  exact {
    selector := mirrors.root.selector.trans (congrArg (fun s : Store => (s.get r).selector) hl)
    text := htext
    scope := hscope
    children := by
      refine ⟨_, hchildren, ?_⟩
      rw [List.map_map]
      refine List.map_congr_left fun c hc => ?_
      exact (mirrors.shape h.selectors (mirrors.inner_child .root hc)
        (Pairing.Mirrors.blank_of_le (mirrors.inner _ .root c hc))).trans (Shape.led_empty _)
    untouched := fun c hc x hx => by
      have hx : x ∈ (h.pairing.left.get r).children.flatMap h.pairing.left.forest.preorder := by
        rw [hl]
        exact List.mem_flatMap.2 ⟨c, hc, hx⟩
      rw [(mirrors.get_below hx).2, hl] }

/-- If a rule set is not cleared and has no block of its own, its text gains that of the new tree.
-/
theorem css_of_kept (keeps : m.session.store.clearsOnReset r = false)
    (hu : m.session.store.Unwritten)
    (mirrors : h.pairing.Mirrors m₁.session.store m₁'.session.store)
    (before : m.session.Blockless r)
    (after : m₁.session.Blockless r) : m₁.session.css r =
      (m.session.css r).bind fun old => (m₁'.session.css m'.session.store.next).map (old ++ ·) := by
  exact mirrors.css_root (h.left_of_kept keeps) rfl h.selectors h.optionsOf
    (fun x _ hne => (hu x hne).imp fun _ hx => hx.1) before after

end Level

/-- A rule set has got in a later state what one that was built beside it holds, and so has its
text, if it has no block of its own. -/
structure Adds (m m₁ : Machine) (r : NodeId) (m₁' : Machine) (n : NodeId) : Prop where
  gains : m.session.store.Gains m₁.session.store r m₁'.session.store n
  css : m.session.Blockless r → m₁.session.Blockless r → m₁.session.css r =
    (m.session.css r).bind fun old => (m₁'.session.css n).map (old ++ ·)

/-- A rule set that is not emptied on reset is reset by a self-contained generator. If one with the
same selector and equal options can be built by it without any statement failing, then the rule set
gains what that one holds, without any statement failing. -/
theorem resets_adding (s : Script) (k : Nat) {t : Target} {r : NodeId} {g : Generator}
    {options : List (String × Datum)} (settled : (run k (load s)).settled = none)
    (target : (run k (load s)).session.target t = .node r)
    (keeps : (run k (load s)).session.store.clearsOnReset r = false)
    (contained : (run k (load s)).session.SelfContained
      ((run k (load s)).session.store.optionsOf r).className ((run k (load s)).session.bodyOf g))
    (merged : OptionSet.merge (Session.optionsDatum (.ofList options)) =
      .ok ((run k (load s)).session.store.optionsOf r))
    {tag' : Tag} {a : Result} {m₁' : Machine} (fresh : (run k (load s)).Cleanly tag'
      (.build ((run k (load s)).session.store.get r).selector (.generator g) none options) (.ok a)
      m₁') (tag : Tag) :
    ∃ n m₁, a = .value (.node n) ∧
      (run k (load s)).Cleanly tag (.reset t (.generator g)) (.ok (.value (.node r))) m₁ ∧
      (run k (load s)).Adds m₁ r m₁' n := by
  obtain ⟨bodies, closes, body⟩ := contained
  have hr : (run k (load s)).session.Resettable False (run k (load s)).session r g bodies :=
    resettable s k (lt_of_target s k target) closes body False.elim
  have h : (run k (load s)).Level False (run k (load s)) t r g options bodies :=
    ⟨settled, settled, target, merged, False.elim, hr⟩
  obtain ⟨res, m₁, hp, hm⟩ := h.cleanly tag fresh
  cases hm with
  | failed e left right => cases right
  | completed left right extends_left extends_right mirrors =>
    cases left
    cases right
    exact ⟨_, m₁, rfl, hp, h.gains keeps mirrors,
      h.css_of_kept keeps (unwritten s k) mirrors⟩

end Machine

end RuleTree
