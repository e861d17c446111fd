import RuleTree.Proofs.Rebuilding.Compared

/-!
# Rebuilding what is cleared on reset

* `Machine.Rebuilds`: a rule set is reset by the same generator so many times, each time with
  success;
* `Machine.Level.sameTree`: a rule set that was emptied and filled again is like one that was built;
* `Machine.Refill.rebuilds`: it stays so if it is reset any number of times;
* `Machine.RebuildsAfresh`, `Machine.rebuildsAfresh`: a reset by a self-contained generator comes to
  what a build comes to.
-/

namespace RuleTree

namespace Machine

/-- A rule set is reset by a generator so many times, each time with success. Each statement begins
where the one before was completed. -/
inductive Rebuilds (t : Target) (g : Generator) : Nat → Machine → Machine → Prop
  | none (m : Machine) : Rebuilds t g 0 m m
  | more {k : Nat} {m m₁ m₂ : Machine} {tag : Tag} {a : Result}
    (first : m.Performs tag (.reset t (.generator g)) (.ok a) m₁)
    (rest : Rebuilds t g k { m₁ with settled := .none } m₂) : Rebuilds t g (k + 1) m m₂

/-- A rule set that was emptied and filled again is like one that was built. -/
theorem Level.sameTree {m m' m₁ m₁' : Machine} {t : Target} {r : NodeId}
    {g : Generator} {options : List (String × Datum)} {bodies : Bodies}
    (h : m.Level True m' t r g options bodies)
    (mirrors : h.pairing.Mirrors m₁.session.store m₁'.session.store) :
    m₁.session.SameTree r m₁'.session m'.session.store.next := by
  have hs := mirrors.sameTree rfl h.selectors h.optionsOf .root
    (h.blank (h.resettable.clears trivial))
  rw [Pairing.image_root] at hs
  exact hs

/-- A rule set without parent can be emptied and filled again, while one like it is built in the
other state. -/
structure Refill (m m' : Machine) (t : Target) (r : NodeId) (g : Generator)
    (options : List (String × Datum)) (bodies : Bodies) : Prop where
  knows : m.session.Knows g
  level : m.Level True m' t r g options bodies

namespace Refill

variable {m m' m₁ m₁' m₂ : Machine} {t : Target} {r : NodeId} {g : Generator}
  {options : List (String × Datum)} {bodies : Bodies} {tag tag' : Tag}

/-- If both statements succeed, the two trees are the same, and the rule set can be reset again. -/
theorem of_ok (h : m.Refill m' t r g options bodies) {a a' : Result}
    (hp : m.Performs tag (.reset t (.generator g)) (.ok a) m₁) (hp' : m'.Performs tag'
      (.build (m'.session.store.get r).selector (.generator g) none options) (.ok a') m₁') :
    a = .value (.node r) ∧ a' = .value (.node m'.session.store.next) ∧
      m₁.session.SameTree r m₁'.session m'.session.store.next ∧
      ({ m₁ with settled := .none } : Machine).Refill m' t r g options bodies := by
  obtain ⟨res', P', hq, hm⟩ := h.level.performs trivial tag' hp
  obtain ⟨rfl, rfl⟩ := hq.unique hp'
  obtain ⟨k, -, -, hcalls, -⟩ := hp
  cases hm with
  | failed e left => cases left
  | completed left right extends_left extends_right mirrors =>
    cases left
    cases right
    exact ⟨rfl, rfl, h.level.sameTree mirrors, extends_left.knows h.knows,
      h.level.again h.knows extends_left hcalls mirrors⟩

/-- If the build succeeds, the rule set can be reset any number of times, and each time it is like
the one that was built. -/
theorem rebuilds {a' : Result} (hp' : m'.Performs tag'
      (.build (m'.session.store.get r).selector (.generator g) none options) (.ok a') m₁')
    (k : Nat) (h : m.Refill m' t r g options bodies)
    (hs : m.session.SameTree r m₁'.session m'.session.store.next) :
    (∃ m₂, m.Rebuilds t g k m₂) ∧
      ∀ m₂, m.Rebuilds t g k m₂ → m₂.session.SameTree r m₁'.session m'.session.store.next := by
  induction k generalizing m with
  | zero =>
    refine ⟨⟨m, .none m⟩, fun m₂ hm => ?_⟩
    cases hm
    exact hs
  | succ k ih =>
    refine ⟨?_, fun m₂ hm => ?_⟩
    · obtain ⟨res, m₁, hp, hm⟩ := h.level.performs' trivial ⟨[], none, none⟩ hp'
      cases hm with
      | failed e left right => cases right
      | completed left =>
        subst left
        obtain ⟨-, -, hs₁, h₁⟩ := h.of_ok hp hp'
        obtain ⟨⟨m₂, hm₂⟩, -⟩ := ih h₁ ⟨hs₁.shape, hs₁.css⟩
        exact ⟨m₂, .more hp hm₂⟩
    · cases hm with
      | more first rest =>
        obtain ⟨-, -, hs₁, h₁⟩ := h.of_ok first hp'
        exact (ih h₁ ⟨hs₁.shape, hs₁.css⟩).2 m₂ rest

end Refill

/-- In a state, resetting a rule set by a generator comes to what building one with the same
selector and equal options comes to. -/
structure RebuildsAfresh (m : Machine) (t : Target) (r : NodeId) (g : Generator)
    (options : List (String × Datum)) : Prop where
  /-- the one fails if the other does, with the same error -/
  fails : ∀ tag tag' e, (∃ m₁, m.Performs tag (.reset t (.generator g)) (.error e) m₁) ↔
    ∃ m₁', m.Performs tag'
      (.build (m.session.store.get r).selector (.generator g) none options) (.error e) m₁'
  /-- the one succeeds if the other does -/
  succeeds : ∀ tag tag', (∃ a m₁, m.Performs tag (.reset t (.generator g)) (.ok a) m₁) ↔
    ∃ a' m₁', m.Performs tag'
      (.build (m.session.store.get r).selector (.generator g) none options) (.ok a') m₁'
  /-- then the two trees are the same, whatever the rule set held before -/
  same : ∀ tag tag' a a' m₁ m₁', m.Performs tag (.reset t (.generator g)) (.ok a) m₁ →
    m.Performs tag' (.build (m.session.store.get r).selector (.generator g) none options) (.ok a')
      m₁' → a = .value (.node r) ∧ ∃ n, a' = .value (.node n) ∧ m₁.session.SameTree r m₁'.session n
  /-- and the rule set can be reset again any number of times, which makes no difference any more -/
  again : ∀ tag a m₁, m.Performs tag (.reset t (.generator g)) (.ok a) m₁ → ∀ k,
    (∃ m₂, Rebuilds t g k { m₁ with settled := .none } m₂) ∧
      ∀ m₂, Rebuilds t g k { m₁ with settled := .none } m₂ → m₂.session.SameTree r m₁.session r

/-- A rule set that is emptied on reset, that has known options only and no parent, is reset by a
self-contained generator like one is built. -/
theorem rebuildsAfresh (s : Script) (k : Nat) {t : Target} {r : NodeId} {g : Generator}
    (settled : (run k (load s)).settled = none)
    (target : (run k (load s)).session.target t = .node r)
    (parent : ((run k (load s)).session.store.get r).parent = none)
    (extra : ((run k (load s)).session.store.optionsOf r).extra = .empty)
    (clears : (run k (load s)).session.store.clearsOnReset r = true)
    (knows : (run k (load s)).session.Knows g)
    (contained : (run k (load s)).session.SelfContained
      ((run k (load s)).session.store.optionsOf r).className
      ((run k (load s)).session.bodyOf g)) :
    OptionSet.merge (Session.optionsDatum
      (.ofList ((run k (load s)).session.store.optionsOf r).entries)) =
        .ok ((run k (load s)).session.store.optionsOf r) ∧
    ∀ options, OptionSet.merge (Session.optionsDatum (.ofList options)) =
        .ok ((run k (load s)).session.store.optionsOf r) →
      (run k (load s)).RebuildsAfresh t r g options := by
  refine ⟨OptionSet.merge_entries extra, fun options merged => ?_⟩
  obtain ⟨bodies, closes, body⟩ := contained
  have hr : (run k (load s)).session.Resettable True (run k (load s)).session r g bodies :=
    resettable s k (lt_of_target s k target) closes body fun _ => clears
  have hrefill : (run k (load s)).Refill (run k (load s)) t r g options bodies :=
    ⟨knows, settled, settled, target, merged, fun _ => parent, hr⟩
  have h := hrefill.level
  exact {
    fails := fun tag tag' e => by
      constructor
      · rintro ⟨m₁, hp⟩
        obtain ⟨res', m₁', hp', hm⟩ := h.performs trivial tag' hp
        cases hm with
        | failed e left right =>
          cases left
          exact ⟨m₁', right ▸ hp'⟩
        | completed left => cases left
      · rintro ⟨m₁', hp'⟩
        obtain ⟨res, m₁, hp, hm⟩ := h.performs' trivial tag hp'
        cases hm with
        | failed e left right =>
          cases right
          exact ⟨m₁, left ▸ hp⟩
        | completed left right => cases right
    succeeds := fun tag tag' => by
      constructor
      · rintro ⟨a, m₁, hp⟩
        obtain ⟨res', m₁', hp', hm⟩ := h.performs trivial tag' hp
        cases hm with
        | failed e left right => cases left
        | completed left right => exact ⟨_, m₁', right ▸ hp'⟩
      · rintro ⟨a', m₁', hp'⟩
        obtain ⟨res, m₁, hp, hm⟩ := h.performs' trivial tag hp'
        cases hm with
        | failed e left right => cases right
        | completed left => exact ⟨_, m₁, left ▸ hp⟩
    same := fun tag tag' a a' m₁ m₁' hp hp' => by
      obtain ⟨ha, ha', hs, -⟩ := hrefill.of_ok hp hp'
      exact ⟨ha, _, ha', hs⟩
    again := fun tag a m₁ hp k => by
      obtain ⟨res', m₁', hp', hm⟩ := h.performs trivial tag hp
      cases hm with
      | failed e left right => cases left
      | completed left right =>
        obtain ⟨-, -, hs, h₁⟩ := hrefill.of_ok hp (right ▸ hp')
        obtain ⟨he, hall⟩ := Refill.rebuilds (right ▸ hp') k h₁ ⟨hs.shape, hs.css⟩
        refine ⟨he, fun m₂ hm₂ => ?_⟩
        have hs₂ := hall m₂ hm₂
        exact ⟨hs₂.shape.trans hs.shape.symm, hs₂.css.trans hs.css.symm⟩ }

end Machine

/-- A script that builds a tree that is cleared on reset. -/
def Script.clearing : Script where
  steps := [.mk (.build (.text "div") (.inline [
      .mk (.write (.enclosing 0) (.text "old;")) none none,
      .mk (.define (.enclosing 0) "l" (.text "w")) none none,
      .mk (.select (.enclosing 0) "select" (some (.text " p")) (some (.inline []))) none none])
    none [("clear_on_reset", .bool true)]) (some "r") none]
  generators := .ofList [("fill", Body.filling)]
  logs := true

theorem Machine.rebuildsAfresh_clearing :
    ((run 10 (load .clearing)).session.store.get 0).text = "old;" ∧
      (run 10 (load .clearing)).RebuildsAfresh (.handle "r") 0 (.named "fill")
        ((run 10 (load .clearing)).session.store.optionsOf 0).entries := by
  have hbody : (run 10 (load .clearing)).session.bodyOf (.named "fill") = Body.filling :=
    bodyOf_named .clearing 10 "fill"
  have hextra : ((run 10 (load .clearing)).session.store.optionsOf 0).extra.entries = [] :=
    List.isEmpty_iff.1 (by decide +kernel)
  obtain ⟨hmerge, h⟩ := rebuildsAfresh .clearing 10 (t := .handle "r") (r := 0) (g := .named "fill")
    (Option.isNone_iff_eq_none.1 (by decide +kernel)) (Session.target_handle (by decide +kernel))
    (by decide +kernel) (Table.ext hextra) (by decide +kernel) trivial
    (hbody ▸ Session.selfContained_filling _ _)
  exact ⟨by decide +kernel, h _ hmerge⟩

end RuleTree
