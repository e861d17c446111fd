import RuleTree.Proofs.History.Lineage
import RuleTree.Proofs.Tree.Preorder
import Mathlib.Data.List.Chain

/-!
# Trees that unfold in order

As long as new rule sets are only selected on what was itself selected last and is not attached yet,
they are made in the order in which they will stand in the tree.

* `Event.Nests`: an event that makes a rule set, if it does, by a selection on a given one;
* `Store.Trail.preorder_old`, `Store.Trail.preorder_new`: what events that list and empty nothing
  do to trees;
* `Store.Unfolds`: all that was made since a root was made is in the trees of the rule sets on a
  line, one tree after the other;
* `Store.Unfolds.of_root`, `Store.Unfolds.trail`, `Store.Unfolds.attach`: it is so when the root is
  made, a new rule set makes the line longer, and one that is attached makes it shorter;
* `Store.Unfolds.preorder_root`: in the end the tree of the root is all that was made.
-/

namespace RuleTree

/-- Making a rule set by nothing but a selection on a given one, and emptying none. -/
def Event.Nests (given : Option NodeId) : Event → Prop
  | planted _ _ _ _ => False
  | sprouted _ p _ _ fragment => fragment.isSome ∧ given = some p
  | cleared _ => False
  | _ => True

instance (given : Option NodeId) : (e : Event) → Decidable (e.Nests given)
  | .planted .. | .cleared .. => inferInstanceAs (Decidable False)
  | .sprouted _ p _ _ fragment => inferInstanceAs (Decidable (fragment.isSome ∧ given = some p))
  | .selected .. | .wrote .. | .defined .. | .optionSet .. => inferInstanceAs (Decidable True)

namespace Store

variable {s t : Store} {events : List Event} {root n : NodeId} {line : List NodeId}

/-- Events that list and empty nothing change no tree that was there. -/
theorem Trail.preorder_old (h : s.Trail events t) (quiet : ∀ e ∈ events, e.lists = false)
    (uncleared : ∀ x, .cleared x ∉ events) (hn : n < s.next) :
    t.forest.preorder n = s.forest.preorder n := by
  refine Forest.preorder_congr fun x hx => ?_
  rcases h.children quiet x with he | ⟨-, hx' | hx'⟩
  · exact he
  · exact absurd (lt_next_of_mem_preorder hn hx) (Nat.not_lt.2 hx')
  · exact absurd hx' (uncleared x)

/-- Where events list nothing, the rule sets that they make have nothing below them. -/
theorem Trail.preorder_new (h : s.Trail events t) (quiet : ∀ e ∈ events, e.lists = false)
    (hn : s.next ≤ n) : t.forest.preorder n = [n] := by
  have hc : (t.forest.get n).children = [] := by
    rcases h.children quiet n with he | ⟨he, -⟩
    · rw [get_of_next_le hn] at he
      exact he
    · exact he
  rw [Forest.preorder_eq, hc, List.flatMap_nil]

/-- Having made all since a root in order: it is in the trees of the rule sets on a line, each of
which was made under the one before, and all selectors are texts. -/
structure Unfolds (s : Store) (root : NodeId) (line : List NodeId) : Prop where
  made : line.flatMap s.forest.preorder = List.range' root (s.next - root)
  linked : line.IsChain fun p c => (s.get c).parent = some p
  texts : ∀ x, root ≤ x → x < s.next → (s.get x).selector.isText = true
  lt : root < s.next

namespace Unfolds

/-- When a root is made, it stands alone. -/
theorem of_root (h : s.Trail events t) (quiet : ∀ e ∈ events, e.lists = false)
    (made : events.filterMap Event.made? = [s.next])
    (text : (t.get s.next).selector.isText = true) : t.Unfolds s.next [s.next] := by
  have hr := made.symm.trans h.made
  have hone : t.next - s.next = 1 := by
    have hl := congrArg List.length hr
    rwa [List.length_range', List.length_singleton, eq_comm] at hl
  have hnext {a b : Nat} (hb : b - a = 1) : b = a + 1 := by omega
  refine ⟨?_, .singleton _, fun x hle hx => ?_, ?_⟩
  · rw [List.flatMap_singleton, h.preorder_new quiet (Nat.le_refl _), hr]
  · rw [hnext hone] at hx
    rwa [Nat.le_antisymm (Nat.le_of_lt_succ hx) hle]
  · rw [hnext hone]
    exact Nat.lt_succ_self _

variable (hu : s.Unfolds root line)

include hu

/-- What is in the trees was made since the root. -/
theorem mem_tree {x : NodeId} (hn : n ∈ line) (hx : x ∈ s.forest.preorder n) :
    root ≤ x ∧ x < s.next := by
  have hm : x ∈ line.flatMap s.forest.preorder := List.mem_flatMap.2 ⟨n, hn, hx⟩
  rw [hu.made, List.mem_range'_1, Nat.add_sub_cancel' (Nat.le_of_lt hu.lt)] at hm
  exact hm

theorem mem_line (hn : n ∈ line) : root ≤ n ∧ n < s.next :=
  hu.mem_tree hn (Forest.mem_preorder_self _ n)

section Trail

variable (h : s.Trail events t) (nests : ∀ e ∈ events, e.Nests line.getLast?)

include h nests

/-- What is made is made under the last rule set of the line, and its selector is a text. -/
theorem selected {c : NodeId} (hc : c ∈ events.filterMap Event.made?) :
    ∃ p, line.getLast? = some p ∧ (t.get c).parent = some p ∧ (t.get c).selector.isText = true := by
  obtain ⟨e, he, hec⟩ := List.mem_filterMap.1 hc
  have hn := nests e he
  have hh := h.holds he
  cases e with
  | sprouted c' p selector host fragment =>
    cases hec
    obtain ⟨hf, hp⟩ := hn
    obtain ⟨f, rfl⟩ := Option.isSome_iff_exists.1 hf
    obtain ⟨hs, hparent, -, hplus⟩ := hh
    obtain ⟨hlt, stamp, hplus⟩ := hplus f rfl
    have hmem := hu.mem_line (List.mem_of_getLast? hp)
    obtain ⟨u, hu'⟩ := Datum.exists_of_isText (hu.texts p hmem.1 hmem.2)
    rw [(h.madeAs hmem.2).selector, hu'] at hplus
    obtain ⟨v, -, hv⟩ := Datum.exists_text_of_plus hplus
    refine ⟨p, hp, ?_, by rw [hs, hv]; rfl⟩
    rw [hparent, Option.filter_some, if_pos (decide_eq_true hlt)]
  | planted => cases hn
  | selected | wrote | defined | cleared | optionSet => cases hec

/-- What is made comes after all that is in the trees, which stay as they are. -/
theorem made_trail (quiet : ∀ e ∈ events, e.lists = false) :
    (line ++ events.filterMap Event.made?).flatMap t.forest.preorder =
      List.range' root (t.next - root) := by
  have old : line.flatMap t.forest.preorder = line.flatMap s.forest.preorder :=
    List.flatMap_congr fun x hx =>
      h.preorder_old quiet (fun y hy => nests _ hy) (hu.mem_line hx).2
  have new : (events.filterMap Event.made?).flatMap t.forest.preorder =
      events.filterMap Event.made? := by
    rw [h.made]
    refine (List.flatMap_congr fun x hx => ?_).trans (List.flatMap_singleton' _)
    exact h.preorder_new quiet (List.mem_range'_1.1 hx).1
  have hlength {a b c : Nat} (hab : a < b) (hbc : b ≤ c) :
      b - a + (c - b) = c - a ∧ a + (b - a) = b := by omega
  obtain ⟨hsum, hstart⟩ := hlength hu.lt h.next_le
  have happend := List.range'_append_1 (s := root) (m := s.next - root) (n := t.next - s.next)
  rw [hstart, hsum] at happend
  rw [List.flatMap_append, old, hu.made, new, h.made, happend]

/-- What is selected on the last rule set of the line, if anything is, makes the line longer. -/
theorem trail (quiet : ∀ e ∈ events, e.lists = false) {c? : Option NodeId}
    (made : events.filterMap Event.made? = c?.toList) : t.Unfolds root (line ++ c?.toList) := by
  refine ⟨made ▸ hu.made_trail h nests quiet, ?_, fun x hle hx => ?_,
    Nat.lt_of_lt_of_le hu.lt h.next_le⟩
  · refine List.isChain_append.2 ⟨hu.linked.imp fun p c hc => ?_, ?_, fun p hp c hc => ?_⟩
    · exact (h.madeAs (Forest.lt_size_of_parent hc)).parent.trans hc
    · cases c? with
      | none => exact .nil
      | some c => exact .singleton c
    · obtain ⟨p', hp', hparent, -⟩ := hu.selected h nests (made ▸ List.mem_of_head? hc)
      cases hp'.symm.trans hp
      exact hparent
  · by_cases hx' : x < s.next
    · rw [(h.madeAs hx').selector]
      exact hu.texts x hle hx'
    · obtain ⟨-, -, -, htext⟩ := hu.selected h nests (c := x) (by
        rw [h.made, List.mem_range'_1, Nat.add_sub_cancel' h.next_le]
        exact ⟨Nat.not_lt.1 hx', hx⟩)
      exact htext

end Trail

omit hu in
/-- When the last rule set of the line is attached, its tree goes to the end of that of the one
before it, and the line becomes shorter. -/
theorem attach {c : NodeId} (hu : s.Unfolds root (line ++ [c])) (hne : line ≠ []) :
    (s.attach c).Unfolds root line := by
  obtain ⟨before, p, rfl⟩ := (List.eq_nil_or_concat' line).resolve_left hne
  obtain ⟨hchain, -, hlast⟩ := List.isChain_append.1 hu.linked
  have hp : (s.get c).parent = some p := hlast p (by simp) c (by simp)
  have hpc : p < c := Forest.lt_of_parent hp
  have hget {x : NodeId} (hx : x ≠ p) : (s.attach c).get x = s.get x := by
    rw [get_attach, hp, if_neg fun he => hx (Option.some.inj he).symm]
  have hsame (x : NodeId) : ((s.attach c).get x).parent = (s.get x).parent ∧
      ((s.attach c).get x).selector = (s.get x).selector := by
    rw [get_attach]
    split <;> exact ⟨rfl, rfl⟩
  refine ⟨?_, hchain.imp fun q d hd => (hsame d).1.trans hd, fun x hle hx => ?_, ?_⟩
  · -- nothing but the tree of the parent has changed, since it is in no other tree
    have hd : (before.flatMap s.forest.preorder).Disjoint ([p, c].flatMap s.forest.preorder) := by
      refine List.disjoint_of_nodup_append ?_
      have hm := hu.made
      rw [List.append_assoc, List.singleton_append, List.flatMap_append] at hm
      rw [hm]
      exact List.nodup_range'
    have hbefore : before.flatMap (s.attach c).forest.preorder =
        before.flatMap s.forest.preorder :=
      List.flatMap_congr fun q hq => Forest.preorder_congr fun x hx => by
        refine congrArg RuleSet.children (hget fun hxp => ?_)
        subst hxp
        exact hd (List.mem_flatMap.2 ⟨q, hq, hx⟩)
          (List.mem_flatMap.2 ⟨x, by simp, Forest.mem_preorder_self _ x⟩)
    have hchild : (s.attach c).forest.preorder c = s.forest.preorder c :=
      Forest.preorder_congr fun x hx => congrArg RuleSet.children
        (hget (Nat.ne_of_gt (Nat.lt_of_lt_of_le hpc (Forest.le_of_mem_preorder hx))))
    have hparent : (s.attach c).forest.preorder p =
        s.forest.preorder p ++ [c].flatMap (s.attach c).forest.preorder := by
      refine Forest.preorder_append (fun x _ hx => congrArg RuleSet.children (hget hx)) ?_
      show ((s.attach c).get p).children = (s.get p).children ++ [c]
      rw [get_attach, if_pos hp]
    have hm := hu.made
    rw [List.flatMap_append, List.flatMap_append, List.flatMap_singleton, List.flatMap_singleton]
      at hm
    rw [next_attach, List.flatMap_append, List.flatMap_singleton, hbefore, hparent,
      List.flatMap_singleton, hchild, ← List.append_assoc, hm]
  · rw [next_attach] at hx
    rw [(hsame x).2]
    exact hu.texts x hle hx
  · rw [next_attach]
    exact hu.lt

omit hu in
/-- In the end the tree of the root is all that was made since. -/
theorem preorder_root (hu : s.Unfolds root [root]) :
    s.forest.preorder root = List.range' root (s.next - root) := by
  rw [← hu.made, List.flatMap_singleton]

omit hu in
/-- The selectors of an unfolding tree are texts. -/
theorem text_of_mem (hu : s.Unfolds root [root]) (hn : n ∈ s.forest.preorder root) :
    (s.get n).selector.isText = true := by
  have hm := hu.mem_tree (List.mem_singleton_self root) hn
  exact hu.texts n hm.1 hm.2

end Unfolds

end Store

end RuleTree
