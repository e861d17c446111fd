import RuleTree.Proofs.Tree.WellFormed

/-!
# The rule sets of a tree

* `Forest.treeInduction`: induction from the children of a rule set to the rule set;
* `Forest.mem_preorder_self`, `Forest.mem_preorder_of_child`, `Forest.mem_preorder_trans`: what is
  in a tree;
* `Forest.preorder_closed`: what is inherited by children is true in the whole tree;
* `Forest.preorder_congr`, `Forest.preorder_append`: trees with the same lists of children, and with
  more children at the end of the list at the top;
* `Store.Owned.text_of_mem_preorder`, `Store.Owned.options_of_mem_preorder`: a tree shares its
  options, and if one selector is a text, so are all below it.
-/

namespace RuleTree

namespace Forest

/-- What is true of a rule set if it is true of its children is true of all. -/
@[elab_as_elim]
theorem treeInduction (f : Forest) {motive : NodeId → Prop}
    (step : ∀ n, (∀ c ∈ (f.get n).children, motive c) → motive n) (n : NodeId) : motive n :=
  step n fun c h =>
    have : f.size - c < f.size - n :=
      Nat.sub_lt_sub_left (Nat.lt_trans (lt_of_mem_children h) (lt_size_of_mem_children h))
        (lt_of_mem_children h)
    treeInduction f step c
termination_by f.size - n

variable {f : Forest} {n x y : NodeId}

theorem mem_preorder_iff :
    x ∈ f.preorder n ↔ x = n ∨ ∃ c ∈ (f.get n).children, x ∈ f.preorder c := by
  rw [preorder_eq, List.mem_cons, List.mem_flatMap]

theorem mem_preorder_self (f : Forest) (n : NodeId) : n ∈ f.preorder n :=
  mem_preorder_iff.2 (.inl rfl)

/-- A tree has the trees of its rule sets in it. -/
theorem mem_preorder_trans (hx : x ∈ f.preorder n) (hy : y ∈ f.preorder x) : y ∈ f.preorder n := by
  induction n using f.treeInduction with
  | step n ih =>
    rcases mem_preorder_iff.1 hx with rfl | ⟨c, hc, hx⟩
    · exact hy
    · exact mem_preorder_iff.2 (.inr ⟨c, hc, ih c hc hx⟩)

theorem mem_preorder_of_child (hx : x ∈ f.preorder n) (hy : y ∈ (f.get x).children) :
    y ∈ f.preorder n :=
  mem_preorder_trans hx (mem_preorder_iff.2 (.inr ⟨y, hy, mem_preorder_self f y⟩))

/-- What is true of a rule set, and of the children of those that it is true of, is true in its
whole tree. -/
theorem preorder_closed {P : NodeId → Prop} (hn : P n)
    (step : ∀ p c, P p → c ∈ (f.get p).children → P c) (hx : x ∈ f.preorder n) : P x := by
  induction n using f.treeInduction with
  | step n ih =>
    rcases mem_preorder_iff.1 hx with rfl | ⟨c, hc, hx⟩
    · exact hn
    · exact ih c hc (step n c hn hc) hx

/-- What is in a tree is not older than the rule set at its top. -/
theorem le_of_mem_preorder (hx : x ∈ f.preorder n) : n ≤ x :=
  preorder_closed (P := (n ≤ ·)) (Nat.le_refl n)
    (fun _ _ hp hc => Nat.le_trans hp (Nat.le_of_lt (lt_of_mem_children hc))) hx

/-- Where the lists of children are the same, the trees are. -/
theorem preorder_congr {g : Forest}
    (h : ∀ x ∈ f.preorder n, (g.get x).children = (f.get x).children) :
    g.preorder n = f.preorder n := by
  induction n using f.treeInduction with
  | step n ih =>
    rw [preorder_eq, preorder_eq, h n (mem_preorder_self f n)]
    refine congrArg (n :: ·) (List.flatMap_congr fun c hc => ih c hc fun x hx => h x ?_)
    exact mem_preorder_iff.2 (.inr ⟨c, hc, hx⟩)

/-- The trees of more children of the rule set at the top come last. -/
theorem preorder_append {g : Forest} {more : List NodeId}
    (kept : ∀ x ∈ f.preorder n, x ≠ n → (g.get x).children = (f.get x).children)
    (children : (g.get n).children = (f.get n).children ++ more) :
    g.preorder n = f.preorder n ++ more.flatMap g.preorder := by
  have same : (f.get n).children.flatMap g.preorder = (f.get n).children.flatMap f.preorder :=
    List.flatMap_congr fun c hc => preorder_congr fun x hx =>
      kept x (mem_preorder_iff.2 (.inr ⟨c, hc, hx⟩))
        (Nat.ne_of_gt (Nat.lt_of_lt_of_le (lt_of_mem_children hc) (le_of_mem_preorder hx)))
  rw [preorder_eq, preorder_eq f, children, List.flatMap_append, same, List.cons_append]

end Forest

/-- What is in the tree of a rule set that is there is there. -/
theorem Store.lt_next_of_mem_preorder {s : Store} {n x : NodeId} (hn : n < s.next)
    (hx : x ∈ s.forest.preorder n) : x < s.next :=
  Forest.preorder_closed (P := (· < s.next)) hn
    (fun _ _ _ hc => Forest.lt_size_of_mem_children hc) hx

namespace Store.Owned

variable {s : Store} {h : List Event} {pending : List NodeId} {n x : NodeId}

/-- Below a text all selectors are texts. -/
theorem text_of_mem_preorder (ho : s.Owned h pending) (hn : (s.get n).selector.isText = true)
    (hx : x ∈ s.forest.preorder n) : (s.get x).selector.isText = true := by
  refine Forest.preorder_closed (P := fun x => (s.get x).selector.isText = true) hn ?_ hx
  intro p c hp hc
  obtain ⟨t, ht⟩ := Datum.exists_of_isText hp
  obtain ⟨f, -, -, hs⟩ := ho.selector_of_lists hc ht
  rw [hs]
  rfl

/-- The rule sets of a tree have the same options. -/
theorem options_of_mem_preorder (ho : s.Owned h pending) (hx : x ∈ s.forest.preorder n) :
    (s.get x).options = (s.get n).options := by
  refine Forest.preorder_closed (P := fun x => (s.get x).options = (s.get n).options) rfl ?_ hx
  intro p c hp hc
  rw [ho.options_of_lists hc, hp]

end Store.Owned

end RuleTree
