import RuleTree.Store
import Mathlib.Tactic.ByContra

/-!
# Events in the life of rule sets

A store changes in few ways only. Each of them is an event, and a store that came about by events
can be read off them.

* `Event`: what can happen to rule sets;
* `Event.lists`: the events after which a rule set lists one more child;
* `Store.Becomes`: the store after an event, and what has to be the case for it to happen;
* `Store.Trail`: the store after several events;
* what an event leaves as it is: `Store.Becomes.madeAs`, `Store.Trail.madeAs`;
* what events that list nothing do to children: `Store.Trail.children`.

A rule set is made once. Its selector, its parent, its host and its options are those it was made
with.
-/

namespace RuleTree

/-- What happens to rule sets. -/
inductive Event
  /-- a root was made, with options of its own -/
  | planted (n : NodeId) (selector : Datum) (host : Option Datum) (o : OptionSet)
  /-- a rule set was made under a parent, by selecting a fragment on the parent or else by itself -/
  | sprouted (n parent : NodeId) (selector : Datum) (host : Option Datum) (fragment : Option Datum)
  /-- the generator of a selection on a parent came to its end, and the parent lists the child -/
  | selected (parent child : NodeId)
  /-- rule text was written -/
  | wrote (n : NodeId) (text : String)
  /-- a custom property was defined -/
  | defined (n : NodeId) (name text : String)
  /-- a rule set was emptied for a reset -/
  | cleared (n : NodeId)
  /-- an option of a tree was set on one of its rule sets -/
  | optionSet (n : NodeId) (name : String) (value : Datum)

/-- Whether an event makes a rule set list a child. -/
def Event.lists : Event → Bool
  | selected _ _ => true
  | _ => false

/-- Being made alike: with the same selector, parent, host and options. -/
structure RuleSet.MadeAs (r r' : RuleSet) : Prop where
  selector : r'.selector = r.selector
  parent : r'.parent = r.parent
  host : r'.host = r.host
  options : r'.options = r.options

namespace RuleSet.MadeAs

theorem refl (r : RuleSet) : MadeAs r r := ⟨rfl, rfl, rfl, rfl⟩

theorem trans {r₁ r₂ r₃ : RuleSet} (h : MadeAs r₁ r₂) (h' : MadeAs r₂ r₃) : MadeAs r₁ r₃ :=
  ⟨h'.selector.trans h.selector, h'.parent.trans h.parent, h'.host.trans h.host,
    h'.options.trans h.options⟩

end RuleSet.MadeAs

namespace Store

/-! ### Rule sets after an operation -/

theorem get_plant (s : Store) (selector : Datum) (host : Option Datum) (o : OptionSet)
    (n : NodeId) : (s.plant selector host o).get n =
      if n = s.next then .fresh selector none host s.options.size else s.get n :=
  Forest.get_add ..

theorem get_sprout (s : Store) (parent : NodeId) (selector : Datum) (host : Option Datum)
    (n : NodeId) : (s.sprout parent selector host).get n =
      if n = s.next then
        .fresh selector ((some parent).filter (· < s.next)) host (s.get parent).options
      else s.get n :=
  Forest.get_add ..

theorem get_attach (s : Store) (c n : NodeId) : (s.attach c).get n =
    if (s.get c).parent = some n then { s.get n with children := (s.get n).children ++ [c] }
    else s.get n :=
  Forest.get_attach ..

theorem get_append (s : Store) (m : NodeId) (text : String) (n : NodeId) :
    ({ s with forest := s.forest.append m text } : Store).get n =
      if m = n ∧ m < s.next then { s.get n with text := (s.get n).text ++ text } else s.get n :=
  Forest.get_append ..

theorem get_define (s : Store) (m : NodeId) (name text : String) (n : NodeId) :
    ({ s with forest := s.forest.define m name text } : Store).get n =
      if m = n ∧ m < s.next then { s.get n with scope := (s.get n).scope.insert name text }
      else s.get n :=
  Forest.get_define ..

theorem get_clear (s : Store) (m n : NodeId) :
    ({ s with forest := s.forest.clear m } : Store).get n =
      if m = n ∧ m < s.next then { s.get n with text := "", children := [], scope := .empty }
      else s.get n :=
  Forest.get_clear ..

@[simp] theorem next_append (s : Store) (n : NodeId) (text : String) :
    ({ s with forest := s.forest.append n text } : Store).next = s.next := Forest.size_append ..

@[simp] theorem next_define (s : Store) (n : NodeId) (name text : String) :
    ({ s with forest := s.forest.define n name text } : Store).next = s.next :=
  Forest.size_define ..

@[simp] theorem next_clear (s : Store) (n : NodeId) :
    ({ s with forest := s.forest.clear n } : Store).next = s.next := Forest.size_clear ..

/-- A rule set without parent is attached to nothing. -/
theorem attach_of_parent_none {s : Store} {c : NodeId} (h : (s.get c).parent = none) :
    s.attach c = s := by
  unfold attach Forest.attach
  split
  · rfl
  · rename_i p hp
    cases h.symm.trans hp

@[simp] theorem next_attach (s : Store) (c : NodeId) : (s.attach c).next = s.next :=
  Forest.size_attach ..

@[simp] theorem next_setOption (s : Store) (n : NodeId) (name : String) (d : Datum) :
    (s.setOption n name d).next = s.next := rfl

@[simp] theorem get_setOption (s : Store) (n : NodeId) (name : String) (d : Datum) (m : NodeId) :
    (s.setOption n name d).get m = s.get m := rfl

theorem get_of_next_le {s : Store} {n : NodeId} (h : s.next ≤ n) : s.get n = default :=
  Forest.get_of_size_le h

/-- Only a rule set that is there has a text as selector. -/
theorem lt_next_of_selector {s : Store} {n : NodeId} {t : String}
    (h : (s.get n).selector = .text t) : n < s.next := by
  by_contra hn
  rw [get_of_next_le (Nat.not_lt.1 hn)] at h
  cases h

/-- Only to the selector of a rule set that is there can anything be appended. -/
theorem lt_next_of_plus {s : Store} {n : NodeId} {stamp : Stamp} {d e : Datum}
    (h : (s.get n).selector.plus stamp d = .ok e) : n < s.next := by
  by_contra hn
  rw [get_of_next_le (Nat.not_lt.1 hn)] at h
  cases d <;> cases h

/-! ### One event -/

/-- What a store becomes by an event. -/
inductive Becomes (s : Store) : Event → Store → Prop
  | planted (selector : Datum) (host : Option Datum) (o : OptionSet) :
    Becomes s (.planted s.next selector host o) (s.plant selector host o)
  /-- a selected fragment goes together with the selector of the parent -/
  | sprouted (parent : NodeId) (selector : Datum) (host fragment : Option Datum)
    (h : ∀ f, fragment = some f → ∃ stamp, (s.get parent).selector.plus stamp f = .ok selector) :
    Becomes s (.sprouted s.next parent selector host fragment) (s.sprout parent selector host)
  | selected (parent child : NodeId) (h : (s.get child).parent = some parent) :
    Becomes s (.selected parent child) (s.attach child)
  /-- only what awaits no target is written on -/
  | wrote (n : NodeId) (text selector : String) (h : (s.get n).selector = .text selector)
    (hc : incomplete selector = false) :
    Becomes s (.wrote n text) { s with forest := s.forest.append n text }
  | defined (n : NodeId) (name text : String) :
    Becomes s (.defined n name text) { s with forest := s.forest.define n name text }
  /-- only trees whose options say so are emptied -/
  | cleared (n : NodeId) (h : s.clearsOnReset n = true) :
    Becomes s (.cleared n) { s with forest := s.forest.clear n }
  | optionSet (n : NodeId) (name : String) (value : Datum) :
    Becomes s (.optionSet n name value) (s.setOption n name value)

/-- Only text can be written. -/
theorem exists_text_of_write {s s' : Store} {n : NodeId} {d : Datum} (h : s.write n d = .ok s') :
    ∃ text, d = .text text := by
  unfold write at h
  split at h
  · exact ⟨_, rfl⟩
  · split at h <;> cases h
  · cases h

/-- A write that succeeds appends the text that was written. -/
theorem becomes_of_write {s s' : Store} {n : NodeId} {text : String}
    (h : s.write n (.text text) = .ok s') : Becomes s (.wrote n text) s' := by
  cases hs : (s.get n).selector with
  | text selector =>
    rw [write_text s n selector text hs] at h
    split at h
    · cases h
    · rename_i hc
      cases h
      exact .wrote n text selector hs (Bool.eq_false_iff.2 hc)
  | _ =>
    simp only [write, hs] at h
    cases h

namespace Becomes

variable {s t : Store} {e : Event}

theorem next_le (h : Becomes s e t) : s.next ≤ t.next := by
  cases h with
  | planted | sprouted | selected | wrote | defined | cleared | optionSet => simp

/-- What a rule set was made with stays. -/
theorem madeAs (h : Becomes s e t) {n : NodeId} (hn : n < s.next) :
    (s.get n).MadeAs (t.get n) := by
  cases h with
  | planted =>
    rw [get_plant, if_neg (Nat.ne_of_lt hn)]
    exact .refl _
  | sprouted =>
    rw [get_sprout, if_neg (Nat.ne_of_lt hn)]
    exact .refl _
  | selected =>
    rw [get_attach]
    split <;> exact ⟨rfl, rfl, rfl, rfl⟩
  | wrote =>
    rw [get_append]
    split <;> exact ⟨rfl, rfl, rfl, rfl⟩
  | defined =>
    rw [get_define]
    split <;> exact ⟨rfl, rfl, rfl, rfl⟩
  | cleared =>
    rw [get_clear]
    split <;> exact ⟨rfl, rfl, rfl, rfl⟩
  | optionSet => exact .refl _

/-- An event that lists nothing either empties a list of children or leaves it alone. -/
theorem children (h : Becomes s e t) (hq : e.lists = false) (n : NodeId) :
    (t.get n).children = (s.get n).children ∨
      (t.get n).children = [] ∧ (s.next ≤ n ∨ e = .cleared n) := by
  cases h with
  | planted =>
    rw [get_plant]
    split
    · rename_i hn
      exact .inr ⟨rfl, .inl (Nat.le_of_eq hn.symm)⟩
    · exact .inl rfl
  | sprouted =>
    rw [get_sprout]
    split
    · rename_i hn
      exact .inr ⟨rfl, .inl (Nat.le_of_eq hn.symm)⟩
    · exact .inl rfl
  | selected => cases hq
  | wrote =>
    left
    rw [get_append]
    split <;> rfl
  | defined =>
    left
    rw [get_define]
    split <;> rfl
  | cleared =>
    rw [get_clear]
    split
    · rename_i hm
      exact .inr ⟨rfl, .inr (hm.1 ▸ rfl)⟩
    · exact .inl rfl
  | optionSet => exact .inl rfl

end Becomes

/-! ### Several events -/

/-- What a store becomes by one event after another. -/
inductive Trail : Store → List Event → Store → Prop
  | nil (s : Store) : Trail s [] s
  | cons {s t u : Store} {e : Event} {es : List Event} (h : Becomes s e t) (ht : Trail t es u) :
    Trail s (e :: es) u

namespace Trail

variable {s t u : Store} {es es' : List Event}

theorem single {e : Event} (h : Becomes s e t) : Trail s [e] t := .cons h (.nil t)

theorem append (h : Trail s es t) (h' : Trail t es' u) : Trail s (es ++ es') u := by
  induction h with
  | nil => exact h'
  | cons he _ ih => exact .cons he (ih h')

/-- What every event keeps true of the events so far and the store is true at the end. -/
theorem preserves {P : List Event → Store → Prop}
    (step : ∀ {h : List Event} {s t : Store} {e : Event}, P h s → Becomes s e t → P (h ++ [e]) t)
    (ht : Trail s es t) {h : List Event} (hs : P h s) : P (h ++ es) t := by
  induction ht generalizing h with
  | nil => simpa using hs
  | @cons s t u e es he _ ih => simpa using ih (step hs he)

theorem next_le (h : Trail s es t) : s.next ≤ t.next := by
  induction h with
  | nil => exact Nat.le_refl _
  | cons he _ ih => exact Nat.le_trans he.next_le ih

theorem madeAs (h : Trail s es t) {n : NodeId} (hn : n < s.next) :
    (s.get n).MadeAs (t.get n) := by
  induction h with
  | nil => exact .refl _
  | cons he _ ih => exact (he.madeAs hn).trans (ih (Nat.lt_of_lt_of_le hn he.next_le))

/-- Events that list nothing either empty a list of children or leave it alone. -/
theorem children (h : Trail s es t) (hq : ∀ e ∈ es, e.lists = false) (n : NodeId) :
    (t.get n).children = (s.get n).children ∨
      (t.get n).children = [] ∧ (s.next ≤ n ∨ .cleared n ∈ es) := by
  induction h with
  | nil => exact .inl rfl
  | @cons s t u e es he _ ih =>
    have hq' := List.forall_mem_cons.1 hq
    rcases ih hq'.2 with h | ⟨h, hn⟩
    · rw [h]
      rcases he.children hq'.1 n with h' | ⟨h', hn⟩
      · exact .inl h'
      · exact .inr ⟨h', hn.imp id fun hc => List.mem_cons.2 (.inl hc.symm)⟩
    · exact .inr ⟨h, hn.imp (Nat.le_trans he.next_le) (List.mem_cons_of_mem _)⟩

/-- Events that list nothing leave no children but those that were there. -/
theorem children_sublist (h : Trail s es t) (hq : ∀ e ∈ es, e.lists = false) (n : NodeId) :
    (t.get n).children.Sublist (s.get n).children := by
  rcases h.children hq n with he | ⟨he, -⟩
  · simp only [he, List.Sublist.refl]
  · simp only [he, List.nil_sublist]

end Trail

end Store

end RuleTree
