import RuleTree.Proofs.Blocks.Rendering
import RuleTree.Proofs.Iteration.Showing

/-!
# No rule set is entered twice

While a tree changes under an iteration, children may be attached, and lists of children emptied and
filled again. Even so nothing is entered twice, for the following is kept both by what changes the
tree and by the iteration itself.

* `Cursor.Stacked`: the visits stand on one another from child to parent, down to the top of the
  tree;
* `Visit.ahead`: the children that a visit has not passed yet;
* `Cursor.Track`: what was touched, that is entered or about to be, was touched once; it is the top
  or a child of what was touched, and not pending any more; nothing that is ahead was touched;
* `Cursor.Track.enter`, `Cursor.Track.descend`, `Cursor.Track.leave`: the steps of a cursor;
* `Cursor.Track.move`: the steps of a machine.

A child is listed once in its life, by its parent. So what is attached was not touched before unless
it is the top of the tree, which no visit has for a child.
-/

namespace RuleTree

/-- The children that a visit has not passed yet. -/
def Visit.ahead (s : Store) : Visit → List NodeId
  | enter n => (s.get n).children
  | resume n i => (s.get n).children.drop i

theorem Visit.mem_children_of_ahead {s : Store} {v : Visit} {d : NodeId} (h : d ∈ v.ahead s) :
    d ∈ (s.get v.node).children := by
  cases v with
  | enter n => exact h
  | resume n i => exact List.mem_of_mem_drop h

namespace Cursor

/-- Standing on visits of the parent, of its parent, and so on down to the top of a tree. -/
inductive Stacked (s : Store) (n : NodeId) : NodeId → Cursor → Prop
  | bottom : Stacked s n n []
  | under {x p : NodeId} {i : Nat} {rest : Cursor} (parent : (s.get x).parent = some p)
    (hr : Stacked s n p rest) : Stacked s n x (.resume p i :: rest)

namespace Stacked

variable {s : Store} {n x : NodeId} {rest : Cursor}

/-- Whatever stands on the top of a tree is no older. -/
theorem le (h : Stacked s n x rest) : n ≤ x ∧ ∀ v ∈ rest, n ≤ v.node := by
  induction h with
  | bottom => exact ⟨Nat.le_refl n, by simp⟩
  | under parent _ ih =>
    have hp := Nat.le_of_lt (Forest.lt_of_parent parent)
    exact ⟨Nat.le_trans ih.1 hp, List.forall_mem_cons.2 ih⟩

/-- What stands on visits is younger. -/
theorem node_lt (h : Stacked s n x rest) : ∀ v ∈ rest, v.node < x := by
  induction h with
  | bottom => simp
  | under parent _ ih =>
    have hp := Forest.lt_of_parent parent
    exact List.forall_mem_cons.2 ⟨hp, fun v hv => Nat.lt_trans (ih v hv) hp⟩

/-- Parents stay what they are. -/
theorem trail {t : Store} {events : List Event} (h : Stacked s n x rest)
    (ht : s.Trail events t) (hx : x < s.next) : Stacked t n x rest := by
  induction h with
  | bottom => exact .bottom
  | under parent _ ih =>
    have hp := (ht.madeAs hx).parent.trans parent
    exact .under hp (ih (Nat.lt_trans (Forest.lt_of_parent parent) hx))

theorem entering?_eq_none (h : Stacked s n x rest) : entering? rest = none := by
  cases h <;> rfl

end Stacked

/-- Where an iteration over a tree stands, and what it has touched so far: what it has entered and
what it is about to enter. -/
structure Track (s : Store) (pending : List NodeId) (n : NodeId) (c : Cursor)
    (touched : List NodeId) : Prop where
  top : n < s.next
  stacked : ∀ {v rest}, c = v :: rest → Stacked s n v.node rest
  /-- all that is visited has a text for a selector, and the options of the tree -/
  kin : ∀ v ∈ c, (s.get v.node).selector.isText = true ∧
    (s.get v.node).options = (s.get n).options
  mem : ∀ v ∈ c, v.node ∈ touched
  once : touched.Nodup
  /-- all that was touched is a child of what was touched, and not pending, apart from the top -/
  settled : ∀ x ∈ touched, x = n ∨
    x < s.next ∧ x ∉ pending ∧ ∃ p ∈ touched, (s.get x).parent = some p
  ahead : ∀ v ∈ c, ∀ d ∈ v.ahead s, d ∉ touched

namespace Track

variable {s t : Store} {h events : List Event} {pending pending' : List NodeId} {n : NodeId}
  {c rest : Cursor} {touched : List NodeId}

theorem start (hn : (s.get n).selector.isText = true) : Track s pending n (.start n) [n] where
  top := by
    obtain ⟨t, ht⟩ := Datum.exists_of_isText hn
    exact Store.lt_next_of_selector ht
  stacked hc := by
    cases hc
    exact .bottom
  kin v hv := by
    cases List.mem_singleton.1 hv
    exact ⟨hn, rfl⟩
  mem v hv := by
    cases List.mem_singleton.1 hv
    exact List.mem_singleton.2 rfl
  once := List.nodup_singleton n
  settled x hx := .inl (List.mem_singleton.1 hx)
  ahead v hv d hd hm := by
    cases List.mem_singleton.1 hv
    cases List.mem_singleton.1 hm
    exact Nat.lt_irrefl n (Forest.lt_of_mem_children hd)

/-- All that was touched was there before, and what is not the top is not pending. -/
theorem lt_next (ht : Track s pending n c touched) {x : NodeId} (hx : x ∈ touched) :
    x < s.next := by
  rcases ht.settled x hx with rfl | ⟨hlt, -⟩
  · exact ht.top
  · exact hlt

theorem le_node (ht : Track s pending n c touched) {v : Visit} (hv : v ∈ c) : n ≤ v.node := by
  cases c with
  | nil => cases hv
  | cons w rest =>
    obtain ⟨hw, hrest⟩ := (ht.stacked rfl).le
    exact List.forall_mem_cons (p := fun v => n ≤ v.node).2 ⟨hw, hrest⟩ v hv

/-! ### The steps of a cursor -/

/-- What is to be entered is entered. -/
theorem enter {x : NodeId} (ht : Track s pending n (.enter x :: rest) touched) :
    Track s pending n (.resume x 0 :: rest) touched where
  top := ht.top
  stacked hc := by
    cases hc
    exact ht.stacked (v := .enter x) rfl
  kin := List.forall_mem_cons.2 (List.forall_mem_cons.1 ht.kin)
  mem := List.forall_mem_cons.2 (List.forall_mem_cons.1 ht.mem)
  once := ht.once
  settled := ht.settled
  ahead := List.forall_mem_cons.2 (List.forall_mem_cons.1 ht.ahead)

/-- A visit with nothing ahead is left. -/
theorem leave {v : Visit} (ht : Track s pending n (v :: rest) touched) :
    Track s pending n rest touched where
  top := ht.top
  stacked hc := by
    have hs := ht.stacked rfl
    rw [hc] at hs
    cases hs with
    | under _ hr => exact hr
  kin := (List.forall_mem_cons.1 ht.kin).2
  mem := (List.forall_mem_cons.1 ht.mem).2
  once := ht.once
  settled := ht.settled
  ahead := (List.forall_mem_cons.1 ht.ahead).2

section Descend

variable {p d : NodeId} {i : Nat}

theorem drop_eq_cons (hd : (s.get p).children[i]? = some d) :
    (s.get p).children.drop i = d :: (s.get p).children.drop (i + 1) := by
  obtain ⟨hlt, hi⟩ := List.getElem?_eq_some_iff.1 hd
  rw [List.drop_eq_getElem_cons hlt, hi]

/-- The next child was not touched yet. -/
theorem not_mem_touched (ht : Track s pending n (.resume p i :: rest) touched)
    (hd : (s.get p).children[i]? = some d) : d ∉ touched := by
  refine ht.ahead (.resume p i) List.mem_cons_self d ?_
  show d ∈ (s.get p).children.drop i
  rw [drop_eq_cons hd]
  exact List.mem_cons_self

/-- Once the next child is touched, what is ahead is still untouched. -/
theorem ahead_of_descend (ho : s.Owned h pending)
    (ht : Track s pending n (.resume p i :: rest) touched)
    (hd : (s.get p).children[i]? = some d) :
    ∀ v ∈ Visit.enter d :: .resume p (i + 1) :: rest, ∀ e ∈ v.ahead s, e ∉ touched ++ [d] := by
  have hl : s.Lists p d := List.mem_of_getElem? hd
  have hpn : n ≤ p := ht.le_node (v := .resume p i) List.mem_cons_self
  have hp := ht.ahead _ List.mem_cons_self
  simp only [List.forall_mem_cons, List.mem_append, List.mem_singleton]
  refine ⟨?_, ?_, ?_⟩
  · -- a child of `d` that was touched would have been touched after `d`, its parent
    intro e (he : s.Lists d e)
    rintro (hm | rfl)
    · rcases ht.settled e hm with rfl | ⟨-, -, q, hq, hqe⟩
      · exact Nat.lt_irrefl _ (Nat.lt_of_lt_of_le (Nat.lt_trans hl.lt he.lt) hpn)
      · cases hqe.symm.trans he.parent
        exact ht.not_mem_touched hd hq
    · exact Nat.lt_irrefl _ he.lt
  · -- `d` does not stand a second time among the children of `p`
    intro e (he : e ∈ (s.get p).children.drop (i + 1))
    have hnodup := (ho.single p).sublist (List.drop_sublist i _)
    rw [drop_eq_cons hd, List.nodup_cons] at hnodup
    rintro (hm | rfl)
    · refine hp e ?_ hm
      show e ∈ (s.get p).children.drop i
      rw [drop_eq_cons hd]
      exact List.mem_cons_of_mem _ he
    · exact hnodup.1 he
  · -- nor among the children of a visit further down, for its parent is `p`
    intro v hv e he
    rintro (hm | rfl)
    · exact ht.ahead v (List.mem_cons_of_mem _ hv) e he hm
    · have hvp := (ht.stacked rfl).node_lt v hv
      cases (Store.Lists.parent (Visit.mem_children_of_ahead he)).symm.trans hl.parent
      exact Nat.lt_irrefl _ hvp

/-- The next child is about to be entered. -/
theorem descend (ho : s.Owned h pending) (ht : Track s pending n (.resume p i :: rest) touched)
    (hd : (s.get p).children[i]? = some d) :
    Track s pending n (.enter d :: .resume p (i + 1) :: rest) (touched ++ [d]) := by
  have hl : s.Lists p d := List.mem_of_getElem? hd
  have hstill {q : NodeId} (hq : q ∈ touched) : q ∈ touched ++ [d] := List.mem_append_left _ hq
  obtain ⟨hkin, hkins⟩ := List.forall_mem_cons.1 ht.kin
  obtain ⟨hpm, hmem⟩ := List.forall_mem_cons.1 ht.mem
  have hdkin : (s.get d).selector.isText = true ∧ (s.get d).options = (s.get n).options := by
    obtain ⟨selector, hsel⟩ := Datum.exists_of_isText hkin.1
    obtain ⟨f, -, -, hs⟩ := ho.selector_of_lists hl hsel
    exact ⟨by rw [hs]; rfl, (ho.options_of_lists hl).trans hkin.2⟩
  exact
    { top := ht.top
      stacked := by
        intro v rest' hc
        cases hc
        exact .under hl.parent (ht.stacked (v := .resume p i) rfl)
      kin := List.forall_mem_cons.2 ⟨hdkin, List.forall_mem_cons.2 ⟨hkin, hkins⟩⟩
      mem := List.forall_mem_cons.2 ⟨List.mem_append_right _ (List.mem_singleton.2 rfl),
        List.forall_mem_cons.2 ⟨hstill hpm, fun v hv => hstill (hmem v hv)⟩⟩
      once := by
        refine List.nodup_append.2 ⟨ht.once, List.nodup_singleton d, ?_⟩
        intro a ha b hb
        rw [List.mem_singleton.1 hb]
        rintro rfl
        exact ht.not_mem_touched hd ha
      settled := by
        intro x hx
        rcases List.mem_append.1 hx with hx | hx
        · exact (ht.settled x hx).imp id fun ⟨hlt, hpend, q, hq, hqx⟩ =>
            ⟨hlt, hpend, q, hstill hq, hqx⟩
        · rw [List.mem_singleton.1 hx]
          exact .inr ⟨Forest.lt_size_of_mem_children hl, fun hm => ho.apart d hm p hl,
            p, hstill hpm, hl.parent⟩
      ahead := ht.ahead_of_descend ho hd }

end Descend

/-! ### The steps of a machine -/

/-- What was made before and is tracked stays tracked, as long as nothing that was touched is ahead
again. -/
theorem trail (ht : Track s pending n c touched) (hst : s.Trail events t)
    (hpending : ∀ x ∈ touched, x ∉ pending → x ∉ pending')
    (hahead : ∀ v ∈ c, ∀ d ∈ v.ahead t, d ∈ v.ahead s ∨ d ∉ touched) :
    Track t pending' n c touched where
  top := Nat.lt_of_lt_of_le ht.top hst.next_le
  stacked hc := by
    subst hc
    exact (ht.stacked rfl).trail hst (ht.lt_next (ht.mem _ List.mem_cons_self))
  kin v hv := by
    have hm := hst.madeAs (ht.lt_next (ht.mem v hv))
    rw [hm.selector, hm.options, (hst.madeAs ht.top).options]
    exact ht.kin v hv
  mem := ht.mem
  once := ht.once
  settled x hx := (ht.settled x hx).imp id fun ⟨hlt, hpend, q, hq, hqx⟩ =>
    ⟨Nat.lt_of_lt_of_le hlt hst.next_le, hpending x hx hpend, q, hq,
      (hst.madeAs hlt).parent.trans hqx⟩
  ahead v hv d hd := (hahead v hv d hd).elim (ht.ahead v hv d) id

/-- Events that list nothing leave nothing ahead but what was ahead. -/
theorem ahead_of_quiet (hst : s.Trail events t) (hq : ∀ e ∈ events, e.lists = false) {v : Visit}
    {d : NodeId} (hd : d ∈ v.ahead t) : d ∈ v.ahead s := by
  have hc := hst.children hq v.node
  cases v with
  | enter x =>
    rcases hc with hc | ⟨hc, -⟩
    · rw [Visit.ahead, show (t.get x).children = _ from hc] at hd
      exact hd
    · rw [Visit.ahead, show (t.get x).children = [] from hc] at hd
      cases hd
  | resume p i =>
    rcases hc with hc | ⟨hc, -⟩
    · rw [Visit.ahead, show (t.get p).children = _ from hc] at hd
      exact hd
    · rw [Visit.ahead, show (t.get p).children = [] from hc, List.drop_nil] at hd
      cases hd

/-- When a rule set is attached, nothing but itself comes to be ahead. -/
theorem ahead_of_attach {x : NodeId} {v : Visit} {d : NodeId} (hd : d ∈ v.ahead (s.attach x)) :
    d ∈ v.ahead s ∨ d = x ∧ (s.get x).parent = some v.node := by
  cases v with
  | enter p =>
    simp only [Visit.ahead, Store.get_attach] at hd
    split at hd
    · rename_i hp
      exact (List.mem_append.1 hd).imp id fun h => ⟨List.mem_singleton.1 h, hp⟩
    · exact .inl hd
  | resume p i =>
    simp only [Visit.ahead, Store.get_attach] at hd
    split at hd
    · rename_i hp
      rw [List.drop_append] at hd
      exact (List.mem_append.1 hd).imp id fun h =>
        ⟨List.mem_singleton.1 (List.mem_of_mem_drop h), hp⟩
    · exact .inl hd

/-- Whatever a machine does in a step, the iteration is still on its track. -/
theorem move (ht : Track s pending n c touched) (ho : s.Owned h pending)
    (hm : Move s pending events t pending') : Track t pending' n c touched := by
  cases hm with
  | quiet trail quiet sub =>
    exact ht.trail trail (fun x _ hx hm => hx (sub.subset hm))
      fun v _ d hd => .inl (ahead_of_quiet trail quiet hd)
  | enter trail quiet made =>
    obtain ⟨p, selector, f, he⟩ := made
    have hnew := ho.recorded.next_le_of_made trail he rfl
    refine ht.trail trail (fun x hx hp hm => ?_)
      fun v _ d hd => .inl (ahead_of_quiet trail quiet hd)
    rcases List.mem_cons.1 hm with rfl | hm
    · exact Nat.not_lt.2 hnew (ht.lt_next hx)
    · exact hp hm
  | attach parent =>
    refine ht.trail (.single (.selected _ _ parent))
      (fun y _ hy hm => hy (List.mem_cons_of_mem _ hm)) fun v hv d hd => ?_
    rcases ahead_of_attach hd with hd | ⟨rfl, hp⟩
    · exact .inl hd
    · right
      intro hx
      -- the top is older than all visits, and anything else that was touched is not pending
      rcases ht.settled d hx with rfl | ⟨-, hpend, -⟩
      · exact Nat.not_lt.2 (ht.le_node hv) (Forest.lt_of_parent hp)
      · exact hpend List.mem_cons_self

/-! ### On the way to the next block -/

/-- A step of a cursor stays on the track, and touches what it is about to enter. -/
theorem forward (ht : Track s pending n c touched) (ho : s.Owned h pending) :
    Track s pending n (forward s c) (touched ++ (entering? (Cursor.forward s c)).toList) := by
  match c with
  | [] => simpa [Cursor.forward, entering?] using ht
  | .enter x :: rest => simpa [Cursor.forward, entering?] using ht.enter
  | .resume p i :: rest =>
    cases hi : (s.get p).children[i]? with
    | some d =>
      rw [forward_resume_some hi]
      exact ht.descend ho hi
    | none =>
      have he : entering? rest = none := by
        cases rest with
        | nil => rfl
        | cons w rest => exact (ht.stacked rfl).entering?_eq_none
      rw [forward_resume_none hi, he, Option.toList_none, List.append_nil]
      exact ht.leave

/-- Being on the track is kept by the steps of a cursor, and what is entered has its rendering for a
block. -/
theorem kept (ho : s.Owned h pending) (look : Appearance) (n : NodeId) :
    Kept s look (s.rendering (s.optionsOf n).emitCustomProperties.truthy)
      fun c seen => Track s pending n c (seen ++ (entering? c).toList) where
  block := by
    intro c seen x ht hx
    match c with
    | .enter y :: rest =>
      cases hx
      obtain ⟨htext, hopts⟩ := ht.kin _ List.mem_cons_self
      exact Store.block?_of_options htext hopts look
  step := fun _ ht => ht.forward ho

end Track

end Cursor

end RuleTree
