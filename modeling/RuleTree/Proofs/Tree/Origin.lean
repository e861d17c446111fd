import RuleTree.Proofs.Tree.Preorder
import Mathlib.Logic.Relation

/-!
# Construction trees

A rule set belongs to the tree that it was constructed in for ever, whether or not it is listed
there, and whether or not the rule sets between it and the root are alive.

* `Store.Descends`: coming from a rule set by way of parents;
* `Store.origin`: the root that a rule set comes from;
* `Store.Trail.origin`: a rule set never moves to another construction tree;
* `Store.descends_of_mem_preorder`: a tree of children lies in one construction tree;
* `Store.nodup_preorder`, `Store.nodup_flatMap_preorder`: a tree of children meets no rule set
  twice, and neither do the trees of several roots.
-/

namespace RuleTree

namespace Store

variable {s t : Store} {n m p r : NodeId}

/-- Coming from a rule set, or being it: along the parents that rule sets were made under. -/
def Descends (s : Store) : NodeId → NodeId → Prop :=
  Relation.ReflTransGen fun a b => (s.get a).parent = some b

/-- The root that a rule set comes from. -/
def origin (s : Store) (n : NodeId) : NodeId :=
  match _h : (s.get n).parent with
  | some p => origin s p
  | none => n
termination_by n
decreasing_by exact Forest.lt_of_parent _h

theorem origin_of_parent (h : (s.get n).parent = some p) : s.origin n = s.origin p := by
  rw [origin]
  split
  · rename_i q hq
    cases h.symm.trans hq
    rfl
  · rename_i hn
    cases h.symm.trans hn

theorem origin_of_root (h : (s.get n).parent = none) : s.origin n = n := by
  rw [origin]
  split
  · rename_i q hq
    cases h.symm.trans hq
  · rfl

theorem Descends.origin (h : s.Descends n m) : s.origin n = s.origin m := by
  induction h with
  | refl => rfl
  | tail _ hp ih => rw [ih, origin_of_parent hp]

theorem descends_origin (s : Store) (n : NodeId) :
    s.Descends n (s.origin n) ∧ (s.get (s.origin n)).parent = none := by
  induction n using Nat.strongRecOn with
  | ind n ih =>
    cases hp : (s.get n).parent with
    | none =>
      rw [origin_of_root hp]
      exact ⟨.refl, hp⟩
    | some p =>
      obtain ⟨hd, hr⟩ := ih p (Forest.lt_of_parent hp)
      rw [origin_of_parent hp]
      exact ⟨.head hp hd, hr⟩

/-- Two rule sets have one origin if they come from one root. -/
theorem origin_eq_origin_iff :
    s.origin n = s.origin m ↔ ∃ r, (s.get r).parent = none ∧ s.Descends n r ∧ s.Descends m r := by
  constructor
  · intro h
    obtain ⟨hd, hr⟩ := s.descends_origin n
    exact ⟨_, hr, hd, h ▸ (s.descends_origin m).1⟩
  · rintro ⟨r, -, hn, hm⟩
    rw [hn.origin, hm.origin]

theorem Descends.le (h : s.Descends n m) : m ≤ n := by
  induction h with
  | refl => exact Nat.le_refl n
  | tail _ hp ih => exact Nat.le_trans (Nat.le_of_lt (Forest.lt_of_parent hp)) ih

theorem origin_lt_next (h : n < s.next) : s.origin n < s.next :=
  Nat.lt_of_le_of_lt (s.descends_origin n).1.le h

/-- Whatever happens, rule sets stay in their construction trees. -/
theorem Trail.origin {events : List Event} (h : s.Trail events t) (hn : n < s.next) :
    t.origin n = s.origin n := by
  induction n using Nat.strongRecOn with
  | ind n ih =>
    have hm := (h.madeAs hn).parent
    cases hp : (s.get n).parent with
    | none => rw [origin_of_root hp, origin_of_root (hm.trans hp)]
    | some p =>
      have hlt := Forest.lt_of_parent hp
      rw [origin_of_parent hp, origin_of_parent (hm.trans hp), ih p hlt (Nat.lt_trans hlt hn)]

/-! ### Trees of children -/

/-- What is below a rule set comes from it. -/
theorem descends_of_mem_preorder (h : m ∈ s.forest.preorder n) : s.Descends m n :=
  Forest.preorder_closed (P := fun m => s.Descends m n) .refl
    (fun _ _ hp hc => .head (Lists.parent hc) hp) h

/-- A rule set is below no more than one of those that are listed together. -/
theorem eq_of_mem_preorder {c d : NodeId} (hc : s.Lists p c) (hd : s.Lists p d)
    (hm : m ∈ s.forest.preorder c) (hm' : m ∈ s.forest.preorder d) : c = d := by
  have unique : Relator.RightUnique fun a b => (s.get a).parent = some b := fun a b b' h h' =>
    Option.some.inj (h.symm.trans h')
  -- going up is going one way, and from either of the two it goes to the parent and never back
  have apart {c d : NodeId} (hc : s.Lists p c) (hd : s.Lists p d) (h : s.Descends c d) : c = d := by
    rcases Relation.ReflTransGen.cases_head h with h | ⟨q, hq, h⟩
    · exact h
    · cases hc.parent.symm.trans hq
      exact absurd hd.lt (Nat.not_lt.2 (Descends.le h))
  rcases Relation.ReflTransGen.total_of_right_unique unique (descends_of_mem_preorder hm)
    (descends_of_mem_preorder hm') with h | h
  · exact apart hc hd h
  · exact (apart hd hc h).symm

/-- A tree of children meets no rule set twice. -/
theorem nodup_preorder (single : ∀ p, (s.get p).children.Nodup) (n : NodeId) :
    (s.forest.preorder n).Nodup := by
  induction n using s.forest.treeInduction with
  | step n ih =>
    rw [Forest.preorder_eq, List.nodup_cons]
    refine ⟨fun h => ?_, List.nodup_flatMap.2 ⟨ih, (single n).imp_of_mem fun {c d} hc hd hne => ?_⟩⟩
    · obtain ⟨c, hc, h⟩ := List.mem_flatMap.1 h
      exact absurd (Lists.lt hc) (Nat.not_lt.2 (descends_of_mem_preorder h).le)
    · intro m hm hm'
      exact hne (eq_of_mem_preorder hc hd hm hm')

/-- The trees of several roots meet no rule set twice. -/
theorem nodup_flatMap_preorder (single : ∀ p, (s.get p).children.Nodup) {roots : List NodeId}
    (hd : roots.Nodup) (hr : ∀ r ∈ roots, (s.get r).parent = none) :
    (roots.flatMap s.forest.preorder).Nodup := by
  refine List.nodup_flatMap.2 ⟨fun r _ => nodup_preorder single r, hd.imp_of_mem ?_⟩
  intro r q hmr hmq hne m hm hm'
  have h := (descends_of_mem_preorder hm).origin.symm.trans (descends_of_mem_preorder hm').origin
  rw [origin_of_root (hr r hmr), origin_of_root (hr q hmq)] at h
  exact hne h

end Store

end RuleTree
