import RuleTree.Proofs.Blocks.Remaining

/-!
# Where blocks come from

* `Cursor.drain_eq_mapM`: the blocks that remain are those of the rule sets that remain, also if one
  of them fails to show its block;
* `Forest.mem_preorder_of_unlisted`: a rule set that nothing lists is in no tree but its own and
  those of the rule sets below it;
* `Cursor.remaining_outside`: an iteration that is outside of such a tree stays outside.
-/

namespace RuleTree

namespace Cursor

variable {s : Store} {look : Appearance} {c : Cursor}

/-- The blocks that remain are those of the rule sets that remain, in order. The first that fails to
show its block fails them all. -/
theorem drain_eq_mapM (s : Store) (look : Appearance) (c : Cursor) :
    drain s look c = ((remaining s c).mapM (s.block? look)).map List.reduceOption := by
  induction c using forwardInduction s with
  | nil =>
    rw [drain_nil]
    rfl
  | step c hc ih =>
    rw [remaining_forward]
    cases he : entering? c with
    | none =>
      have hs : step s look c = .ok (forward s c, none) := by
        rw [step_eq (f := fun _ => none) look fun n hn => by simp [he] at hn]
        simp [he]
      rw [drain_of_step hc hs, ih]
      simp only [Option.toList_none, List.nil_append]
      cases (remaining s (forward s c)).mapM (s.block? look) <;> rfl
    | some n =>
      rw [Option.toList_some, List.singleton_append, List.mapM_cons]
      cases hb : s.block? look n with
      | error e =>
        have hs : step s look c = .error e := by
          match c, he with
          | .enter m :: rest, rfl =>
            simp only [step, hb]
            rfl
        rw [drain, dif_neg hc]
        split
        · rename_i e' he'
          cases hs.symm.trans he'
          rfl
        · rename_i h'
          cases hs.symm.trans h'
        · rename_i h'
          cases hs.symm.trans h'
      | ok block =>
        have hs : step s look c = .ok (forward s c, block) := by
          rw [step_eq (f := fun _ => block) look fun m hm => by
            rw [he] at hm
            cases hm
            exact hb, he]
          rfl
        rw [drain_of_step hc hs, ih]
        cases (remaining s (forward s c)).mapM (s.block? look) <;> cases block <;> rfl

end Cursor

namespace Forest

variable {f : Forest} {n q x : NodeId}

/-- What is in a tree is its top, or is listed by a rule set of the tree. -/
theorem eq_or_listed_of_mem_preorder (hx : x ∈ f.preorder q) :
    x = q ∨ ∃ p ∈ f.preorder q, x ∈ (f.get p).children := by
  have h : x ∈ f.preorder q ∧ (x = q ∨ ∃ p ∈ f.preorder q, x ∈ (f.get p).children) := by
    refine preorder_closed (P := fun x => x ∈ f.preorder q ∧
      (x = q ∨ ∃ p ∈ f.preorder q, x ∈ (f.get p).children)) ⟨mem_preorder_self f q, .inl rfl⟩ ?_ hx
    rintro p c ⟨hp, -⟩ hc
    exact ⟨mem_preorder_of_child hp hc, .inr ⟨p, hp, hc⟩⟩
  exact h.2

/-- The tree of a rule set that nothing lists shares nothing with other trees but those below it. -/
theorem mem_preorder_of_unlisted (hn : ∀ p, n ∉ (f.get p).children) (hx : x ∈ f.preorder n)
    (hq : x ∈ f.preorder q) : q ∈ f.preorder n := by
  -- up from where the trees meet, the one parent of every rule set is in both
  have h : x ∈ f.preorder n ∧ (x ∈ f.preorder q → q ∈ f.preorder n) := by
    refine preorder_closed (P := fun x => x ∈ f.preorder n ∧ (x ∈ f.preorder q → q ∈ f.preorder n))
      ⟨mem_preorder_self f n, fun hnq => ?_⟩ ?_ hx
    · rcases eq_or_listed_of_mem_preorder hnq with rfl | ⟨p, -, hp⟩
      · exact mem_preorder_self f n
      · exact absurd hp (hn p)
    · rintro p c ⟨hp, ih⟩ hc
      have hcn := mem_preorder_of_child hp hc
      refine ⟨hcn, fun hcq => ?_⟩
      rcases eq_or_listed_of_mem_preorder hcq with rfl | ⟨p', hp', hc'⟩
      · exact hcn
      · cases (parent_of_mem_children hc').symm.trans (parent_of_mem_children hc)
        exact ih hp'
  exact h.2 hq

end Forest

/-- An iteration that holds on to nothing of a tree whose top is unlisted stays outside of it. -/
theorem Cursor.remaining_outside {s : Store} {n : NodeId} {c : Cursor}
    (hn : ∀ p, n ∉ (s.get p).children) (hc : ∀ q ∈ c.nodes, q ∉ s.forest.preorder n) {x : NodeId}
    (hx : x ∈ remaining s c) : x ∉ s.forest.preorder n := by
  obtain ⟨v, hv, hxv⟩ := List.mem_flatMap.1 hx
  have hq : x ∈ s.forest.preorder v.node := by
    cases v with
    | enter q => exact hxv
    | resume q i =>
      obtain ⟨d, hd, hxd⟩ := List.mem_flatMap.1 hxv
      exact Forest.mem_preorder_iff.2 (.inr ⟨d, List.mem_of_mem_drop hd, hxd⟩)
  intro hxn
  exact hc v.node (List.mem_map_of_mem hv) (Forest.mem_preorder_of_unlisted hn hxn hq)

end RuleTree
