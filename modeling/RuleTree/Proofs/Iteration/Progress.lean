import RuleTree.Proofs.Iteration.Showing
import Mathlib.Data.List.Flatten
import Mathlib.Data.List.Infix

/-!
# An iteration goes through the tree in order

As long as no rule set of the tree is emptied, lists of children only grow at the end.

* `Store.Grows`: a tree whose lists of children only grow at the end;
* `Store.Grows.preorder_sublist`, `Store.Grows.children_sublist`: the tree as it was is in the tree
  as it is, in the same order, and so are the parts of it before and behind a position;
* `Store.Grows.of_move`: a step of a machine that empties no rule set of a tree lets it grow;
* `Cursor.Placed`: a cursor in a tree, and what comes before it in the tree;
* `Cursor.Placed.preorder_eq`: what comes before and what remains make up the tree;
* `Cursor.Progress`: what was entered comes before the cursor in the same order, and whatever was in
  the tree at first was entered or remains.
-/

namespace RuleTree

namespace Store

/-- Growing at the ends of the lists of children of a tree only. -/
def Grows (s t : Store) (n : NodeId) : Prop :=
  ∀ x ∈ s.forest.preorder n, (s.get x).children <+: (t.get x).children

/-- In a list that grows at its end, what comes before a position stays, and what comes after it is
still there. -/
theorem take_eq_of_prefix {α : Type} {l l' : List α} (h : l <+: l') {i : Nat}
    (hi : i ≤ l.length) : l'.take i = l.take i ∧ l.drop i <+: l'.drop i := by
  obtain ⟨ext, rfl⟩ := h
  rw [List.take_append_of_le_length hi, List.drop_append_of_le_length hi]
  exact ⟨rfl, List.prefix_append _ _⟩

namespace Grows

variable {s t : Store} {n x : NodeId}

/-- Each tree in a tree that grows grows. -/
theorem preorder_sublist (h : s.Grows t n) (hx : x ∈ s.forest.preorder n) :
    (s.forest.preorder x).Sublist (t.forest.preorder x) := by
  induction x using s.forest.treeInduction with
  | step x ih =>
    have hsub : ((s.get x).children.flatMap s.forest.preorder).Sublist
        ((s.get x).children.flatMap t.forest.preorder) :=
      .flatMap_right _ fun c hc => ih c hc (Forest.mem_preorder_of_child hx hc)
    rw [Forest.preorder_eq, Forest.preorder_eq]
    exact (hsub.trans ((h x hx).sublist.flatMap _)).cons_cons x

/-- The trees of the children before a position are still before it, and those of the others are
still behind it. -/
theorem children_sublist (h : s.Grows t n) (hx : x ∈ s.forest.preorder n) {i : Nat}
    (hi : i ≤ (s.get x).children.length) :
    (((s.get x).children.take i).flatMap s.forest.preorder).Sublist
        (((t.get x).children.take i).flatMap t.forest.preorder) ∧
      (((s.get x).children.drop i).flatMap s.forest.preorder).Sublist
        (((t.get x).children.drop i).flatMap t.forest.preorder) := by
  obtain ⟨htake, hdrop⟩ := take_eq_of_prefix (h x hx) hi
  have hchild {c : NodeId} (hc : c ∈ (s.get x).children) :
      (s.forest.preorder c).Sublist (t.forest.preorder c) :=
    h.preorder_sublist (Forest.mem_preorder_of_child hx hc)
  constructor
  · rw [htake]
    exact .flatMap_right _ fun c hc => hchild (List.mem_of_mem_take hc)
  · have hold : (((s.get x).children.drop i).flatMap s.forest.preorder).Sublist
        (((s.get x).children.drop i).flatMap t.forest.preorder) :=
      .flatMap_right _ fun c hc => hchild (List.mem_of_mem_drop hc)
    exact hold.trans (hdrop.sublist.flatMap _)

/-- A step of a machine lets a tree grow unless it empties one of its rule sets. -/
theorem of_move {pending pending' : List NodeId} {events : List Event}
    (hm : Move s pending events t pending') (hn : n < s.next)
    (hc : ∀ x, .cleared x ∈ events → x ∉ s.forest.preorder n) : s.Grows t n := by
  have quiet (ht : s.Trail events t) (hq : ∀ e ∈ events, e.lists = false) : s.Grows t n := by
    intro x hx
    rcases ht.children hq x with h | ⟨-, h | h⟩
    · exact h ▸ List.prefix_refl _
    · exact absurd (lt_next_of_mem_preorder hn hx) (Nat.not_lt.2 h)
    · exact absurd hx (hc x h)
  cases hm with
  | quiet trail hq => exact quiet trail hq
  | enter trail hq => exact quiet trail hq
  | attach parent =>
    intro x _
    rw [get_attach]
    split
    · exact List.prefix_append _ _
    · exact List.prefix_refl _

end Grows

end Store

namespace Cursor

/-- A rule set on top of visits in a tree, and what comes before it in the tree. -/
inductive Under (s : Store) (n : NodeId) : NodeId → Cursor → List NodeId → Prop
  | top : Under s n n [] []
  | child {p x : NodeId} {i : Nat} {rest : Cursor} {before : List NodeId}
    (hx : (s.get p).children[i]? = some x) (hr : Under s n p rest before) :
    Under s n x (.resume p (i + 1) :: rest)
      (before ++ p :: ((s.get p).children.take i).flatMap s.forest.preorder)

/-- A cursor in a tree, and what comes before it in the tree. -/
inductive Placed (s : Store) (n : NodeId) : Cursor → List NodeId → Prop
  | enter {x : NodeId} {rest : Cursor} {before : List NodeId} (h : Under s n x rest before) :
    Placed s n (.enter x :: rest) before
  | resume {p : NodeId} {i : Nat} {rest : Cursor} {before : List NodeId}
    (h : Under s n p rest before) (hi : i ≤ (s.get p).children.length) :
    Placed s n (.resume p i :: rest)
      (before ++ p :: ((s.get p).children.take i).flatMap s.forest.preorder)
  | ended : Placed s n [] (s.forest.preorder n)

namespace Under

variable {s t : Store} {n x : NodeId} {rest : Cursor} {before : List NodeId}

/-- What comes before a rule set, its tree, and what remains below it make up the whole tree. -/
theorem preorder_eq (h : Under s n x rest before) :
    s.forest.preorder n = before ++ s.forest.preorder x ++ remaining s rest := by
  induction h with
  | top => simp [remaining]
  | @child p x i rest before hx _ ih =>
    obtain ⟨hlt, hx⟩ := List.getElem?_eq_some_iff.1 hx
    have hc : (s.get p).children =
        (s.get p).children.take i ++ x :: (s.get p).children.drop (i + 1) := by
      rw [← hx, List.cons_getElem_drop_succ, List.take_append_drop]
    rw [ih, Forest.preorder_eq s.forest p, remaining_cons]
    show before ++ p :: (s.get p).children.flatMap s.forest.preorder ++ _ = _
    conv => lhs; rw [hc]
    simp [Visit.remaining]

/-- The tree has everything in it that is visited. -/
theorem mem (h : Under s n x rest before) :
    x ∈ s.forest.preorder n ∧ ∀ v ∈ rest, v.node ∈ s.forest.preorder n := by
  induction h with
  | top => exact ⟨Forest.mem_preorder_self _ n, by simp⟩
  | child hx _ ih =>
    exact ⟨Forest.mem_preorder_of_child ih.1 (List.mem_of_getElem? hx),
      List.forall_mem_cons.2 ⟨ih.1, ih.2⟩⟩

/-- In a growing tree a rule set stays under the same visits. -/
theorem grow (h : Under s n x rest before) (hg : s.Grows t n) :
    ∃ before', Under t n x rest before' ∧ before.Sublist before' ∧
      (remaining s rest).Sublist (remaining t rest) := by
  induction h with
  | top => exact ⟨[], .top, .refl _, .refl _⟩
  | @child p x i rest before hx hr ih =>
    obtain ⟨before', hu, hb, hrem⟩ := ih
    have hp := hr.mem.1
    obtain ⟨hlt, hxi⟩ := List.getElem?_eq_some_iff.1 hx
    obtain ⟨htake, -⟩ := hg.children_sublist hp (Nat.le_of_lt hlt)
    obtain ⟨-, hdrop⟩ := hg.children_sublist hp hlt
    have hx' : (t.get p).children[i]? = some x := by
      obtain ⟨ext, he⟩ := hg p hp
      rw [← he, List.getElem?_append_left hlt, hx]
    refine ⟨_, .child hx' hu, hb.append (htake.cons_cons p), ?_⟩
    rw [remaining_cons, remaining_cons]
    exact hdrop.append hrem

end Under

namespace Placed

variable {s t : Store} {n : NodeId} {c : Cursor} {before : List NodeId}

/-- What comes before a cursor and what remains make up the tree. -/
theorem preorder_eq (h : Placed s n c before) : s.forest.preorder n = before ++ remaining s c := by
  cases h with
  | enter h =>
    rw [h.preorder_eq, remaining_cons, ← List.append_assoc]
    rfl
  | @resume p i rest before h hi =>
    rw [h.preorder_eq, Forest.preorder_eq s.forest p, remaining_cons]
    show before ++ p :: (s.get p).children.flatMap s.forest.preorder ++ _ = _
    conv => lhs; rw [← List.take_append_drop i (s.get p).children]
    simp only [List.flatMap_append, Visit.remaining, List.append_assoc, List.cons_append]
  | ended => simp [remaining]

/-- A step passes the rule set that it enters and nothing else. -/
theorem forward (h : Placed s n c before) :
    Placed s n (forward s c) (before ++ (entering? c).toList) := by
  cases h with
  | @enter x rest before h =>
    have hr := Placed.resume (i := 0) h (Nat.zero_le _)
    simpa [Cursor.forward, entering?] using hr
  | @resume p i rest before h hi =>
    rw [show entering? (.resume p i :: rest) = none from rfl, Option.toList_none, List.append_nil]
    cases hc : (s.get p).children[i]? with
    | some d =>
      rw [forward_resume_some hc]
      exact .enter (.child hc h)
    | none =>
      rw [forward_resume_none hc, List.take_of_length_le (List.getElem?_eq_none_iff.1 hc)]
      have hp : p :: (s.get p).children.flatMap s.forest.preorder = s.forest.preorder p :=
        (Forest.preorder_eq s.forest p).symm
      rw [hp]
      cases h with
      | top => exact .ended
      | @child q x j rest before hx hr =>
        -- the tree that was left is that of the child passed last
        obtain ⟨hlt, hj⟩ := List.getElem?_eq_some_iff.1 hx
        have ht : (s.get q).children.take (j + 1) = (s.get q).children.take j ++ [p] := by
          rw [List.take_succ_eq_append_getElem hlt, hj]
        have hu := Placed.resume (i := j + 1) hr hlt
        rw [ht, List.flatMap_append, List.flatMap_singleton, ← List.cons_append,
          ← List.append_assoc] at hu
        exact hu
  | ended => simpa [Cursor.forward, entering?] using Placed.ended

/-- In a growing tree a cursor stays in its place: what comes before it still does, and what remains
still does. -/
theorem grow (h : Placed s n c before) (hg : s.Grows t n) :
    ∃ before', Placed t n c before' ∧ before.Sublist before' ∧
      (remaining s c).Sublist (remaining t c) := by
  cases h with
  | enter h =>
    obtain ⟨before', hu, hb, hrem⟩ := h.grow hg
    refine ⟨before', .enter hu, hb, ?_⟩
    rw [remaining_cons, remaining_cons]
    exact (hg.preorder_sublist h.mem.1).append hrem
  | @resume p i rest before h hi =>
    obtain ⟨before', hu, hb, hrem⟩ := h.grow hg
    have hp : p ∈ s.forest.preorder n := h.mem.1
    obtain ⟨htake, hdrop⟩ := hg.children_sublist hp hi
    refine ⟨_, .resume hu (Nat.le_trans hi (hg p hp).length_le), hb.append (htake.cons_cons p), ?_⟩
    rw [remaining_cons, remaining_cons]
    exact hdrop.append hrem
  | ended => exact ⟨_, .ended, hg.preorder_sublist (Forest.mem_preorder_self _ n), .refl _⟩

end Placed

/-- How far an iteration has come in a tree: what was entered comes before the cursor, in the order
of the tree, and what was in the tree at first was entered or remains. -/
structure Progress (s : Store) (n : NodeId) (first : List NodeId) (c : Cursor)
    (seen : List NodeId) : Prop where
  order : ∃ before, Placed s n c before ∧ seen.Sublist before
  cover : ∀ x ∈ first, x ∈ seen ∨ x ∈ remaining s c

namespace Progress

variable {s t : Store} {n : NodeId} {first seen : List NodeId} {c : Cursor}

theorem start (s : Store) (n : NodeId) : Progress s n (s.forest.preorder n) (.start n) [] where
  order := ⟨[], .enter .top, .refl _⟩
  cover x hx := .inr (by rwa [remaining_start])

/-- A step makes progress. -/
theorem forward (h : Progress s n first c seen) :
    Progress s n first (forward s c) (seen ++ (entering? c).toList) where
  order := by
    obtain ⟨before, hp, hs⟩ := h.order
    exact ⟨_, hp.forward, hs.append_right _⟩
  cover x hx := by
    have hc := h.cover x hx
    rw [remaining_forward, List.mem_append] at hc
    rw [List.mem_append, or_assoc]
    exact hc

/-- Nothing is lost while the tree grows. -/
theorem grow (h : Progress s n first c seen) (hg : s.Grows t n) : Progress t n first c seen := by
  obtain ⟨before, hp, hs⟩ := h.order
  obtain ⟨before', hp', hb, hr⟩ := hp.grow hg
  exact ⟨⟨before', hp', hs.trans hb⟩, fun x hx => (h.cover x hx).imp id fun hx => hr.subset hx⟩

/-- At the end all that was in the tree at first was entered, and all that was entered is in the
tree in the same order. -/
theorem at_end (h : Progress s n first [] seen) :
    seen.Sublist (s.forest.preorder n) ∧ ∀ x ∈ first, x ∈ seen := by
  obtain ⟨before, hp, hs⟩ := h.order
  refine ⟨?_, fun x hx => (h.cover x hx).elim id fun hx => by cases hx⟩
  rw [hp.preorder_eq]
  exact hs.trans (List.sublist_append_left _ _)

end Progress

end Cursor

end RuleTree
