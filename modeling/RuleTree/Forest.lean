import RuleTree.Datum
import RuleTree.Table

/-!
# Forests of rule sets

All rule sets that were ever made, numbered in order of creation. A rule set knows the one it was
made under, its parent, and lists as children those that were attached to it.

* `RuleSet`: what one rule set holds;
* `RuleSet.links`: the objects that a rule set keeps alive;
* `Forest`: the rule sets, with two invariants: a parent is older than its children, and a listed
  child has the rule set that lists it for a parent;
* `Forest.get`, `Forest.add`, `Forest.attach`, `Forest.edit`, `Forest.clear`;
* `Forest.preorder`: a rule set and everything below it, parents first, children in order.

Making a rule set does not attach it: it is attached once its generator is through. By the second
invariant there is but one rule set that it can be attached to.
-/

namespace RuleTree

/-- A rule set. -/
structure RuleSet where
  selector : Datum
  parent : Option NodeId
  host : Option Datum
  options : OptionsId
  text : String
  children : List NodeId
  scope : Table String

namespace RuleSet

/-- A rule set with nothing in it. -/
def fresh (selector : Datum) (parent : Option NodeId) (host : Option Datum)
    (options : OptionsId) : RuleSet where
  selector := selector
  parent := parent
  host := host
  options := options
  text := ""
  children := []
  scope := .empty

instance : Inhabited RuleSet := ⟨fresh .null none none 0⟩

/-- The objects that a host keeps alive by being kept itself. An object is only referred to weakly,
a plain value is kept with everything in it. -/
def hostLinks (host : Datum) : List Identity :=
  match host.identity? with
  | some _ => []
  | none => host.identities

/-- The objects that a rule set keeps alive, apart from its options. -/
def links (r : RuleSet) : List Identity :=
  r.children.map .node ++ r.selector.identities ++ r.host.toList.flatMap hostLinks

end RuleSet

/-- The rule sets made so far. -/
structure Forest where
  nodes : Array RuleSet
  parent_lt : ∀ {n : NodeId} {r : RuleSet} {p : NodeId},
    nodes[n]? = some r → r.parent = some p → p < n
  parent_of_child : ∀ {n : NodeId} {r : RuleSet} {c : NodeId},
    nodes[n]? = some r → c ∈ r.children → ∃ s, nodes[c]? = some s ∧ s.parent = some n

namespace Forest

/-- The forest without rule sets. -/
def empty : Forest where
  nodes := #[]
  parent_lt := by simp
  parent_of_child := by simp

instance : Inhabited Forest := ⟨empty⟩

/-- The number of rule sets. -/
def size (f : Forest) : Nat := f.nodes.size

/-- A rule set by number; one that holds nothing where there is none. -/
def get (f : Forest) (n : NodeId) : RuleSet := f.nodes[n]?.getD default

theorem getElem?_eq_some_get {f : Forest} {n : NodeId} (h : n < f.size) :
    f.nodes[n]? = some (f.get n) := by
  simp [get, Array.getElem?_eq_getElem (show n < f.nodes.size from h)]

theorem get_of_size_le {f : Forest} {n : NodeId} (h : f.size ≤ n) : f.get n = default := by
  simp [get, Array.getElem?_eq_none (show f.nodes.size ≤ n from h)]

theorem lt_of_parent {f : Forest} {n p : NodeId} (h : (f.get n).parent = some p) : p < n := by
  by_cases hn : n < f.size
  · exact f.parent_lt (getElem?_eq_some_get hn) h
  · rw [get_of_size_le (Nat.not_lt.1 hn)] at h
    simp [default, RuleSet.fresh] at h

theorem lt_size_of_parent {f : Forest} {n p : NodeId} (h : (f.get n).parent = some p) :
    n < f.size := by
  by_cases hn : n < f.size
  · exact hn
  · rw [get_of_size_le (Nat.not_lt.1 hn)] at h
    simp [default, RuleSet.fresh] at h

theorem parent_of_mem_children {f : Forest} {n c : NodeId} (h : c ∈ (f.get n).children) :
    (f.get c).parent = some n := by
  by_cases hn : n < f.size
  · obtain ⟨s, hs, hp⟩ := f.parent_of_child (getElem?_eq_some_get hn) h
    simp [get, hs, hp]
  · rw [get_of_size_le (Nat.not_lt.1 hn)] at h
    simp [default, RuleSet.fresh] at h

theorem lt_of_mem_children {f : Forest} {n c : NodeId} (h : c ∈ (f.get n).children) : n < c :=
  lt_of_parent (parent_of_mem_children h)

theorem lt_size_of_mem_children {f : Forest} {n c : NodeId} (h : c ∈ (f.get n).children) :
    c < f.size :=
  lt_size_of_parent (parent_of_mem_children h)

/-! ### Changes -/

/-- Make a rule set that nothing is attached to and that is attached to nothing. -/
def add (f : Forest) (selector : Datum) (parent : Option NodeId) (host : Option Datum)
    (options : OptionsId) : Forest where
  nodes := f.nodes.push (.fresh selector (parent.filter (· < f.size)) host options)
  parent_lt := by
    intro n r p hr hp
    rw [Array.getElem?_push] at hr
    split at hr
    · rename_i hn
      cases hr
      obtain ⟨h₁, h₂⟩ := Option.filter_eq_some_iff.1 hp
      exact hn ▸ of_decide_eq_true h₂
    · exact f.parent_lt hr hp
  parent_of_child := by
    intro n r c hr hc
    rw [Array.getElem?_push] at hr
    split at hr
    · cases hr
      simp [RuleSet.fresh] at hc
    · obtain ⟨s, hs, hp⟩ := f.parent_of_child hr hc
      refine ⟨s, ?_, hp⟩
      rw [Array.getElem?_push, if_neg, hs]
      intro hcs
      rw [hcs, Array.getElem?_eq_none (Nat.le_refl _)] at hs
      cases hs

/-- Replace text, scope and children of a rule set, the children by some of them. -/
def edit (f : Forest) (n : NodeId) (change : RuleSet → RuleSet)
    (parent_eq : ∀ r, (change r).parent = r.parent)
    (children_sub : ∀ r c, c ∈ (change r).children → c ∈ r.children) : Forest where
  nodes := f.nodes.modify n change
  parent_lt := by
    intro m r p hr hp
    rw [Array.getElem?_modify] at hr
    split at hr
    · obtain ⟨s, hs, rfl⟩ := Option.map_eq_some_iff.1 hr
      exact f.parent_lt hs (parent_eq s ▸ hp)
    · exact f.parent_lt hr hp
  parent_of_child := by
    intro m r c hr hc
    have key : ∃ s, f.nodes[m]? = some s ∧ c ∈ s.children := by
      rw [Array.getElem?_modify] at hr
      split at hr
      · obtain ⟨s, hs, rfl⟩ := Option.map_eq_some_iff.1 hr
        exact ⟨s, hs, children_sub s c hc⟩
      · exact ⟨r, hr, hc⟩
    obtain ⟨s, hs, hcs⟩ := key
    obtain ⟨t, ht, hp⟩ := f.parent_of_child hs hcs
    rw [Array.getElem?_modify]
    split
    · exact ⟨change t, by rw [ht]; rfl, (parent_eq t).trans hp⟩
    · exact ⟨t, ht, hp⟩

/-- Append rule text. -/
def append (f : Forest) (n : NodeId) (text : String) : Forest :=
  f.edit n (fun r => { r with text := r.text ++ text }) (fun _ => rfl) (fun _ _ h => h)

/-- Define a custom property. -/
def define (f : Forest) (n : NodeId) (name text : String) : Forest :=
  f.edit n (fun r => { r with scope := r.scope.insert name text }) (fun _ => rfl) (fun _ _ h => h)

/-- Empty a rule set. The former children keep it for a parent. -/
def clear (f : Forest) (n : NodeId) : Forest :=
  f.edit n (fun r => { r with text := "", children := [], scope := .empty }) (fun _ => rfl)
    (fun _ _ h => by simp at h)

/-- Append a rule set to the children of its parent; one without parent stays as it is. -/
def attach (f : Forest) (c : NodeId) : Forest :=
  match hp : (f.get c).parent with
  | none => f
  | some n =>
    { nodes := f.nodes.modify n fun r => { r with children := r.children ++ [c] }
      parent_lt := by
        intro m r p hr hp
        rw [Array.getElem?_modify] at hr
        split at hr
        · obtain ⟨s, hs, rfl⟩ := Option.map_eq_some_iff.1 hr
          exact f.parent_lt hs hp
        · exact f.parent_lt hr hp
      parent_of_child := by
        intro m r d hr hd
        have key : ∃ s, f.nodes[d]? = some s ∧ s.parent = some m := by
          rw [Array.getElem?_modify] at hr
          split at hr
          · rename_i hm
            obtain ⟨s, hs, rfl⟩ := Option.map_eq_some_iff.1 hr
            simp only [List.mem_append, List.mem_singleton] at hd
            rcases hd with hd | rfl
            · exact f.parent_of_child hs hd
            · exact ⟨f.get d, getElem?_eq_some_get (lt_size_of_parent hp), hm ▸ hp⟩
          · exact f.parent_of_child hr hd
        obtain ⟨s, hs, hsp⟩ := key
        rw [Array.getElem?_modify]
        split
        · exact ⟨{ s with children := s.children ++ [c] }, by rw [hs]; rfl, hsp⟩
        · exact ⟨s, hs, hsp⟩ }

/-! ### What the changes do to `size` and `get` -/

@[simp] theorem size_add (f : Forest) (selector : Datum) (parent : Option NodeId)
    (host : Option Datum) (options : OptionsId) :
    (f.add selector parent host options).size = f.size + 1 := by
  simp [add, size]

theorem get_add (f : Forest) (selector : Datum) (parent : Option NodeId)
    (host : Option Datum) (options : OptionsId) (n : NodeId) :
    (f.add selector parent host options).get n =
      if n = f.size then .fresh selector (parent.filter (· < f.size)) host options
      else f.get n := by
  unfold get add
  rw [Array.getElem?_push]
  by_cases h : n = f.size
  · rw [if_pos h, if_pos (show n = f.nodes.size from h)]; rfl
  · rw [if_neg h, if_neg (show ¬ n = f.nodes.size from h)]

theorem getD_modify (nodes : Array RuleSet) (n : NodeId) (change : RuleSet → RuleSet)
    (m : NodeId) :
    (nodes.modify n change)[m]?.getD default =
      if n = m ∧ n < nodes.size then change (nodes[m]?.getD default)
      else nodes[m]?.getD default := by
  rw [Array.getElem?_modify]
  by_cases hm : n = m
  · subst hm
    by_cases hs : n < nodes.size
    · rw [if_pos rfl, if_pos ⟨rfl, hs⟩, Array.getElem?_eq_getElem hs]; rfl
    · rw [if_pos rfl, if_neg fun h => hs h.2, Array.getElem?_eq_none (Nat.not_lt.1 hs)]; rfl
  · rw [if_neg hm, if_neg fun h => hm h.1]

@[simp] theorem size_edit (f : Forest) (n : NodeId) (change : RuleSet → RuleSet)
    (h₁ : ∀ r, (change r).parent = r.parent)
    (h₂ : ∀ r c, c ∈ (change r).children → c ∈ r.children) :
    (f.edit n change h₁ h₂).size = f.size := by
  simp [edit, size]

theorem get_edit (f : Forest) (n : NodeId) (change : RuleSet → RuleSet)
    (h₁ : ∀ r, (change r).parent = r.parent)
    (h₂ : ∀ r c, c ∈ (change r).children → c ∈ r.children) (m : NodeId) :
    (f.edit n change h₁ h₂).get m =
      if n = m ∧ n < f.size then change (f.get m) else f.get m :=
  getD_modify f.nodes n change m

@[simp] theorem size_append (f : Forest) (n : NodeId) (text : String) :
    (f.append n text).size = f.size := size_edit ..

@[simp] theorem size_define (f : Forest) (n : NodeId) (name text : String) :
    (f.define n name text).size = f.size := size_edit ..

@[simp] theorem size_clear (f : Forest) (n : NodeId) : (f.clear n).size = f.size := size_edit ..

@[simp] theorem size_attach (f : Forest) (c : NodeId) : (f.attach c).size = f.size := by
  unfold attach
  split <;> simp [size]

theorem get_append (f : Forest) (n : NodeId) (text : String) (m : NodeId) :
    (f.append n text).get m =
      if n = m ∧ n < f.size then { f.get m with text := (f.get m).text ++ text } else f.get m :=
  get_edit ..

theorem get_define (f : Forest) (n : NodeId) (name text : String) (m : NodeId) :
    (f.define n name text).get m =
      if n = m ∧ n < f.size then { f.get m with scope := (f.get m).scope.insert name text }
      else f.get m :=
  get_edit ..

theorem get_clear (f : Forest) (n : NodeId) (m : NodeId) :
    (f.clear n).get m =
      if n = m ∧ n < f.size then { f.get m with text := "", children := [], scope := .empty }
      else f.get m :=
  get_edit ..

theorem get_attach (f : Forest) (c m : NodeId) :
    (f.attach c).get m =
      if (f.get c).parent = some m then { f.get m with children := (f.get m).children ++ [c] }
      else f.get m := by
  unfold attach
  split
  · rename_i hp
    rw [hp, if_neg (by simp)]
  · rename_i n hp
    have hn : n < f.size := Nat.lt_trans (lt_of_parent hp) (lt_size_of_parent hp)
    refine (getD_modify f.nodes n _ m).trans ?_
    by_cases hm : n = m
    · rw [if_pos ⟨hm, hn⟩, if_pos (hm ▸ hp)]; rfl
    · rw [if_neg fun h => hm h.1, if_neg (by rw [hp]; simpa using hm)]; rfl

/-! ### Walking the tree -/

/-- A rule set and everything below it, parents first and children in order. -/
def preorder (f : Forest) (n : NodeId) : List NodeId :=
  n :: (f.get n).children.attach.flatMap fun ⟨c, _⟩ => preorder f c
termination_by f.size - n
decreasing_by
  rename_i h
  exact Nat.sub_lt_sub_left (Nat.lt_trans (lt_of_mem_children h) (lt_size_of_mem_children h))
    (lt_of_mem_children h)

theorem preorder_eq (f : Forest) (n : NodeId) :
    f.preorder n = n :: (f.get n).children.flatMap f.preorder := by
  conv => lhs; unfold preorder
  simp

end Forest

end RuleTree
