import Mathlib.Logic.Equiv.Defs
import Mathlib.Tactic.SplitIfs
import RuleTree.Proofs.Blocks.Awaiting
import RuleTree.Proofs.Siblings.Selected
import RuleTree.Proofs.Tree.Origin

/-!
# Selections in either order

* `Store.preorder_renumber`, `Store.exists_preorder_around`: trees whose rule sets have other
  numbers, and trees in which only one subtree differs;
* `exchange`: other numbers for what was made by two selections;
* `Session.Exchanged`: two sessions that are the same, but for the numbers of rule sets and for the
  last two children of one of them, which are exchanged;
* `SwapsBlocks`: two serializations in which two groups of blocks are exchanged;
* `Session.exchanging`, `Session.exchanged_of_bears`: so the sessions are after both orders, with
  these other numbers;
* `Session.Exchanged.swapped`: and so their serializations are;
* `Machine.Selects`: successive selections on a rule set;
* `Machine.SelectsEitherWay`, `Machine.selectsEitherWay`: two selections by self-contained generators
  can be made in either order.
-/

namespace RuleTree

/-! ### Trees -/

namespace Store

variable {s t : Store} {n p r : NodeId}

/-- A tree whose rule sets have other numbers. -/
theorem preorder_renumber {f : NodeId → NodeId}
    (h : ∀ x ∈ s.forest.preorder n, t.get (f x) = (s.get x).renumber f) :
    t.forest.preorder (f n) = (s.forest.preorder n).map f := by
  induction n using s.forest.treeInduction with
  | step n ih =>
    have hn : (t.forest.get (f n)).children = (s.forest.get n).children.map f :=
      congrArg RuleSet.children (h n (Forest.mem_preorder_self _ n))
    rw [Forest.preorder_eq, Forest.preorder_eq s.forest, hn, List.map_cons, List.flatMap_map,
      List.map_flatMap]
    refine congrArg (f n :: ·) (List.flatMap_congr fun c hc => ih c hc fun x hx => h x ?_)
    exact Forest.mem_preorder_iff.2 (.inr ⟨c, hc, hx⟩)

/-- Below which rule sets one is, only depends on older ones. -/
theorem mem_preorder_of_older (h : ∀ x < p, t.get x = s.get x) (hp : p ∈ t.forest.preorder r) :
    p ∈ s.forest.preorder r := by
  induction r using t.forest.treeInduction with
  | step r ih =>
    rcases Forest.mem_preorder_iff.1 hp with rfl | ⟨c, hc, hp⟩
    · exact Forest.mem_preorder_self _ _
    · have hlt : r < p :=
        Nat.lt_of_lt_of_le (Forest.lt_of_mem_children hc) (descends_of_mem_preorder hp).le
      have hchildren : (t.forest.get r).children = (s.forest.get r).children :=
        congrArg RuleSet.children (h r hlt)
      exact Forest.mem_preorder_iff.2 (.inr ⟨c, hchildren ▸ hc, ih c hc hp⟩)

/-- Around the tree of a rule set, a tree that it is in stays as it is if nothing else changes. -/
theorem exists_preorder_around (single : ∀ q, (s.get q).children.Nodup)
    (hp : p ∈ s.forest.preorder r) : ∃ before after : List NodeId,
      (∀ x ∈ before ++ after, x ∈ s.forest.preorder r) ∧
      ∀ t : Store, (∀ x ∈ s.forest.preorder r, x ≠ p → t.get x = s.get x) →
        t.forest.preorder r = before ++ t.forest.preorder p ++ after := by
  induction r using s.forest.treeInduction with
  | step r ih =>
    rcases Forest.mem_preorder_iff.1 hp with rfl | ⟨c, hc, hpc⟩
    · exact ⟨[], [], nofun, fun t _ => by rw [List.nil_append, List.append_nil]⟩
    · obtain ⟨before, after, hmem, heq⟩ := ih c hc hpc
      obtain ⟨left, right, hsplit⟩ := List.append_of_mem hc
      have below {x d : NodeId} (hd : d ∈ left ++ right) (hx : x ∈ s.forest.preorder d) :
          x ∈ s.forest.preorder r ∧ x ≠ p := by
        have hnodup : (left ++ c :: right).Nodup := hsplit ▸ single r
        have hdr : d ∈ (s.get r).children := by
          rw [show (s.get r).children = _ from hsplit]
          rcases List.mem_append.1 hd with hd | hd
          · exact List.mem_append_left _ hd
          · exact List.mem_append_right _ (List.mem_cons_of_mem _ hd)
        refine ⟨Forest.mem_preorder_iff.2 (.inr ⟨d, hdr, hx⟩), ?_⟩
        rintro rfl
        cases eq_of_mem_preorder (p := r) hdr hc hx hpc
        rw [List.nodup_middle, List.nodup_cons] at hnodup
        exact hnodup.1 hd
      have hr : r ≠ p := by
        rintro rfl
        exact absurd (Forest.lt_of_mem_children hc)
          (Nat.not_lt.2 (descends_of_mem_preorder hpc).le)
      refine ⟨r :: left.flatMap s.forest.preorder ++ before,
        after ++ right.flatMap s.forest.preorder, fun x hx => ?_, fun t ht => ?_⟩
      · have inChild {x : NodeId} (hx : x ∈ before ++ after) : x ∈ s.forest.preorder r :=
          Forest.mem_preorder_iff.2 (.inr ⟨c, hc, hmem x hx⟩)
        simp only [List.cons_append, List.mem_cons, List.mem_append] at hx
        rcases hx with rfl | (hx | hx) | hx | hx
        · exact Forest.mem_preorder_self _ _
        · obtain ⟨d, hd, hx⟩ := List.mem_flatMap.1 hx
          exact (below (List.mem_append_left _ hd) hx).1
        · exact inChild (List.mem_append_left _ hx)
        · exact inChild (List.mem_append_right _ hx)
        · obtain ⟨d, hd, hx⟩ := List.mem_flatMap.1 hx
          exact (below (List.mem_append_right _ hd) hx).1
      · have hchildren : (t.forest.get r).children = left ++ c :: right :=
          (congrArg RuleSet.children (ht r (Forest.mem_preorder_self _ r) hr)).trans hsplit
        have same {l : List NodeId} (hl : l ⊆ left ++ right) :
            l.flatMap t.forest.preorder = l.flatMap s.forest.preorder :=
          List.flatMap_congr fun d hd => preorder_congr fun x hx =>
            ht x (below (hl hd) hx).1 (below (hl hd) hx).2
        rw [Forest.preorder_eq, hchildren, List.flatMap_append, List.flatMap_cons,
          same (List.subset_append_left _ _), same (List.subset_append_right _ _),
          heq t fun x hx => ht x (Forest.mem_preorder_iff.2 (.inr ⟨c, hc, hx⟩))]
        simp only [List.cons_append, List.append_assoc]

/-- The block of a rule set depends neither on its parent nor on its children. -/
theorem block?_of_get {x y : NodeId} {parent : Option NodeId} {children : List NodeId}
    (h : t.get y = { s.get x with parent, children }) (ho : t.options = s.options)
    (look : Appearance) : t.block? look y = s.block? look x := by
  unfold block? emits optionsOf
  rw [h, ho]
  rfl

/-- Texts as selectors have blocks. -/
theorem exists_blocksOf (look : Appearance) {ns : List NodeId}
    (h : ∀ x ∈ ns, (s.get x).selector.isText = true) : ∃ bs, s.blocksOf look ns = .ok bs := by
  have hm : ∃ bs, ns.mapM (s.block? look) = .ok bs := by
    induction ns with
    | nil => exact ⟨[], rfl⟩
    | cons x ns ih =>
      obtain ⟨bs, hbs⟩ := ih fun y hy => h y (List.mem_cons_of_mem _ hy)
      rw [List.mapM_cons, block?_of_options (h x List.mem_cons_self) rfl, hbs]
      exact ⟨_, rfl⟩
  obtain ⟨bs, hbs⟩ := hm
  exact ⟨bs.reduceOption, by rw [blocksOf, hbs]; rfl⟩

end Store

/-! ### Sessions after both orders -/

/-- Other numbers for what was made by two selections, the first of which has ended at one number,
and would have ended at another one if it had been the other one's turn. -/
def exchange (start left right n : Nat) : Nat :=
  if n < start then n
  else if n < left then n - start + right
  else if n < left + right - start then n - left + start
  else n

theorem exchange_exchange {start left right : Nat} (hl : start ≤ left) (hr : start ≤ right)
    (n : Nat) : exchange start right left (exchange start left right n) = n := by
  unfold exchange
  split_ifs <;> omega

theorem exchange_of_lt {start left right n : Nat} (h : n < start) :
    exchange start left right n = n := if_pos h

/-- What was made first gets the numbers that it would have got later. -/
theorem exchange_of_first {start left right n : Nat} (h : n < left) :
    exchange start left right n = if n < start then n else n - start + right := by
  unfold exchange
  rw [if_pos h]

/-- What was made later gets the numbers that it would have got first. -/
theorem exchange_of_second {start left right n : Nat} (hl : start ≤ left) (h : n < right) :
    exchange start left right (if n < start then n else n - start + left) = n := by
  unfold exchange
  split_ifs <;> omega

theorem exchange_of_le {start left right n : Nat} (hl : start ≤ left) (hr : start ≤ right)
    (h : left + right ≤ n + start) : exchange start left right n = n := by
  unfold exchange
  split_ifs <;> omega

namespace Session

variable {σ σ₁ σ₂ σ₁' σ₂' : Session} {p c d : NodeId} {f : Equiv.Perm NodeId}

/-- Being the same but for the numbers of rule sets that were made since a session, and for the last
two children of a rule set, which are exchanged. Of everything else only what objects have for
numbers besides, the trace and the log may differ. -/
structure Exchanged (σ : Session) (p c d : NodeId) (f : Equiv.Perm NodeId) (σ₂ σ₂' : Session) :
    Prop where
  older : ∀ n < σ.store.next, f n = n
  next : σ₂'.store.next = σ₂.store.next
  options : σ₂.store.options = σ.store.options ∧ σ₂'.store.options = σ.store.options
  kept : ∀ n < σ.store.next, n ≠ p →
    σ₂.store.get n = σ.store.get n ∧ σ₂'.store.get n = σ.store.get n
  made : ∀ n, σ.store.next ≤ n → σ₂'.store.get (f n) = (σ₂.store.get n).renumber f
  texts : ∀ n, σ.store.next ≤ n → n < σ₂.store.next → (σ₂.store.get n).selector.isText = true
  since : σ.store.next ≤ c ∧ σ.store.next ≤ d
  children : σ₂.store.get p =
    { σ.store.get p with children := (σ.store.get p).children ++ [c, d] }
  exchanged : σ₂'.store.get p =
    { σ.store.get p with children := (σ.store.get p).children ++ [f d, f c] }
  rest : ∃ store stamps bodies trace log, σ₂' = { σ₂ with store, stamps, bodies, trace, log }

section Orders

variable {n : NodeId} (first : σ.Bears σ₁ p) (second : σ₁.Bears σ₂ p) (first' : σ.Bears σ₁' p)
  (second' : σ₁'.Bears σ₂' p) (copies : σ₁'.Copies σ₂' σ σ₁) (copies' : σ₁.Copies σ₂ σ σ₁')

/-- The numbers after one rule set was made under another, and then a second one, as the numbers
after the second one was made first. -/
def exchanging : Equiv.Perm NodeId where
  toFun := exchange σ.store.next σ₁.store.next σ₁'.store.next
  invFun := exchange σ.store.next σ₁'.store.next σ₁.store.next
  left_inv := exchange_exchange (Nat.le_of_lt first.lt) (Nat.le_of_lt first'.lt)
  right_inv := exchange_exchange (Nat.le_of_lt first'.lt) (Nat.le_of_lt first.lt)

theorem exchanging_of_first (hn : n < σ₁.store.next) : exchanging first first' n = σ₁'.shift σ n :=
  exchange_of_first hn

theorem exchanging_shift (hn : n < σ₁'.store.next) : exchanging first first' (σ₁.shift σ n) = n :=
  exchange_of_second (Nat.le_of_lt first.lt) hn

theorem shift_next (σ σ₁ : Session) : σ₁.shift σ σ.store.next = σ₁.store.next := by
  unfold shift
  rw [if_neg (Nat.lt_irrefl _), Nat.sub_self, Nat.zero_add]

include copies copies' in
theorem next_of_copies : σ₂'.store.next = σ₂.store.next :=
  Nat.add_right_cancel (copies.next.trans ((Nat.add_comm _ _).trans copies'.next.symm))

include copies' in
/-- What was made later would have got another number if it had been made first. -/
theorem exists_shift (hn : σ₁.store.next ≤ n) (hlt : n < σ₂.store.next) :
    ∃ x, σ.store.next ≤ x ∧ x < σ₁'.store.next ∧ σ₁.shift σ x = n := by
  have key (a b c e n : Nat) : e + a = c + b → b ≤ n → n < e → n - b + a < c := by omega
  have key' (a b n : Nat) : b ≤ n → n - b + a - a + b = n := by omega
  refine ⟨n - σ₁.store.next + σ.store.next, Nat.le_add_left _ _,
    key _ _ _ _ _ copies'.next hn hlt, ?_⟩
  unfold shift
  rw [if_neg (Nat.not_lt.2 (Nat.le_add_left _ _))]
  exact key' _ _ _ hn

include second copies in
/-- What was made first is there with the numbers that it gets later. -/
theorem get_exchanging_first (lt : p < σ.store.next) (hn : σ.store.next ≤ n)
    (hfirst : n < σ₁.store.next) : σ₂'.store.get (exchanging first first' n) =
      (σ₂.store.get n).renumber (exchanging first first') := by
  have early {m : NodeId} (hm : m < n) : exchanging first first' m = σ₁'.shift σ m :=
    exchanging_of_first first first' (Nat.lt_trans hm hfirst)
  rw [exchanging_of_first first first' hfirst, copies.get n hn hfirst,
    second.others n hfirst (Nat.ne_of_gt (Nat.lt_of_lt_of_le lt hn))]
  exact RuleSet.renumber_congr (fun q hq => (early (Forest.lt_of_parent hq)).symm) fun c hc =>
    (exchanging_of_first first first' (Forest.lt_size_of_mem_children hc)).symm

include second' copies' in
/-- What was made later is there with the numbers that it gets first. -/
theorem get_exchanging_second (lt : p < σ.store.next) (hn : σ₁.store.next ≤ n)
    (hlt : n < σ₂.store.next) : σ₂'.store.get (exchanging first first' n) =
      (σ₂.store.get n).renumber (exchanging first first') := by
  obtain ⟨x, hx, hx', rfl⟩ := exists_shift copies' hn hlt
  have back {m : NodeId} (hm : m < σ₁'.store.next) :
      (exchanging first first' ∘ σ₁.shift σ) m = id m := exchanging_shift first first' hm
  rw [exchanging_shift first first' hx', copies'.get x hx hx', RuleSet.renumber_renumber,
    second'.others x hx' (Nat.ne_of_gt (Nat.lt_of_lt_of_le lt hx))]
  refine ((RuleSet.renumber_congr (fun q hq => back ?_) fun c hc => back ?_).trans
    (RuleSet.renumber_id _)).symm
  · exact Nat.lt_trans (Forest.lt_of_parent hq) hx'
  · exact Forest.lt_size_of_mem_children hc

include second second' copies copies' in
/-- Whatever was made since is there with its other number. -/
theorem get_exchanging (lt : p < σ.store.next) (hn : σ.store.next ≤ n) :
    σ₂'.store.get (exchanging first first' n) =
      (σ₂.store.get n).renumber (exchanging first first') := by
  by_cases hfirst : n < σ₁.store.next
  · exact get_exchanging_first first second first' copies lt hn hfirst
  by_cases hlt : n < σ₂.store.next
  · exact get_exchanging_second first first' second' copies' lt (Nat.not_lt.1 hfirst) hlt
  have hf : exchanging first first' n = n :=
    exchange_of_le (Nat.le_of_lt first.lt) (Nat.le_of_lt first'.lt) <| by
      rw [Nat.add_comm, ← copies'.next]
      exact Nat.add_le_add_right (Nat.not_lt.1 hlt) _
  have hle : σ₂'.store.next ≤ n := next_of_copies copies copies' ▸ Nat.not_lt.1 hlt
  rw [hf, Store.get_of_next_le (Nat.not_lt.1 hlt), Store.get_of_next_le hle]
  rfl

include second copies copies' in
/-- The selectors of whatever was made since are texts. -/
theorem isText_of_copies (lt : p < σ.store.next) (hn : σ.store.next ≤ n) (hlt : n < σ₂.store.next) :
    (σ₂.store.get n).selector.isText = true := by
  by_cases hfirst : n < σ₁.store.next
  · rw [second.others n hfirst (Nat.ne_of_gt (Nat.lt_of_lt_of_le lt hn))]
    exact copies.texts n hn hfirst
  · obtain ⟨x, hx, hlt', rfl⟩ := exists_shift copies' (Nat.not_lt.1 hfirst) hlt
    rw [copies'.get x hx hlt']
    exact copies'.texts x hx hlt'

include first second first' second' in
/-- Everything but rule sets, numbers, bodies, the trace and the log is as it was. -/
theorem rest_of_bears :
    ∃ store stamps bodies trace log, σ₂' = { σ₂ with store, stamps, bodies, trace, log } := by
  obtain ⟨_, _, _, _, _, _, -, h⟩ := first.extend.trans second.extend
  obtain ⟨calls, trace, store, stamps, added, log, -, h'⟩ := first'.extend.trans second'.extend
  have hcalls : σ₂'.calls = σ₂.calls := by
    rw [second'.calls, first'.calls, second.calls, first.calls]
  refine ⟨store, stamps, σ.bodies ++ added, trace, log, ?_⟩
  rw [h'] at hcalls ⊢
  rw [← hcalls, h]

include second second' copies copies' in
/-- Two rule sets were made in either order under the same one. -/
theorem exchanged_of_bears (lt : p < σ.store.next) :
    σ.Exchanged p σ.store.next σ₁.store.next (exchanging first first') σ₂ σ₂' where
  older n hn := exchange_of_lt hn
  next := next_of_copies copies copies'
  options := ⟨second.options.trans first.options, second'.options.trans first'.options⟩
  kept n hn hne := by
    rw [second.others n (Nat.lt_trans hn first.lt) hne, first.others n hn hne,
      second'.others n (Nat.lt_trans hn first'.lt) hne, first'.others n hn hne]
    exact ⟨rfl, rfl⟩
  made n hn := get_exchanging first second first' second' copies copies' lt hn
  texts n hn hlt := isText_of_copies second copies copies' lt hn hlt
  since := ⟨Nat.le_refl _, Nat.le_of_lt first.lt⟩
  children := by
    rw [second.parent, first.parent, List.append_assoc]
    rfl
  exchanged := by
    have hc : exchanging first first' σ.store.next = σ₁'.store.next :=
      (exchanging_of_first first first' first.lt).trans (shift_next σ σ₁')
    have hd : exchanging first first' σ₁.store.next = σ.store.next :=
      shift_next σ σ₁ ▸ exchanging_shift first first' first'.lt
    rw [hc, hd, second'.parent, first'.parent, List.append_assoc]
    rfl
  rest := rest_of_bears first second first' second'

end Orders

/-! ### Serializations -/

/-- The serialization of a tree in two sessions is the same, but for the blocks of two trees that
stand side by side in it, which are exchanged. -/
inductive Swapped (σ₂ σ₂' : Session) (c d r : NodeId) : Prop
  | failed (e : Error) (left : σ₂.css r = .error e) (right : σ₂'.css r = .error e)
  | serialized (before one two after : List String)
    (first : σ₂.store.blocks σ₂.hostName c = .ok one)
    (second : σ₂.store.blocks σ₂.hostName d = .ok two)
    (blocks : σ₂.store.blocks σ₂.hostName r = .ok (before ++ one ++ two ++ after))
    (blocks' : σ₂'.store.blocks σ₂'.hostName r = .ok (before ++ two ++ one ++ after))
    (left : σ₂.css r = .ok (String.join (before ++ one ++ two ++ after)))
    (right : σ₂'.css r = .ok (String.join (before ++ two ++ one ++ after)))

/-- A rule set that was there has more children, and nothing else has changed in its tree. -/
theorem preorder_of_children {s : Store} {more : List NodeId} (lt : p < σ.store.next)
    (kept : ∀ n < σ.store.next, n ≠ p → s.get n = σ.store.get n)
    (children : (s.get p).children = (σ.store.get p).children ++ more) :
    s.forest.preorder p = σ.store.forest.preorder p ++ more.flatMap s.forest.preorder :=
  Forest.preorder_append (fun x hx hne =>
    congrArg RuleSet.children (kept x (Store.lt_next_of_mem_preorder lt hx) hne)) children

/-- Around what has changed, the blocks of a tree are the same. -/
theorem blocks_around {s : Store} {look : Appearance} {r : NodeId} {before after : List NodeId}
    {C D : List NodeId} {one two : List String}
    (hblock : ∀ x < σ.store.next, s.block? look x = σ.store.block? look x)
    (hmem : ∀ x ∈ before ++ σ.store.forest.preorder p ++ after, x < σ.store.next)
    (hr : s.forest.preorder r = before ++ (σ.store.forest.preorder p ++ (C ++ D)) ++ after)
    (hone : s.blocksOf look C = .ok one) (htwo : s.blocksOf look D = .ok two) :
    s.blocksOf look (s.forest.preorder r) =
      (σ.store.blocksOf look (before ++ σ.store.forest.preorder p)).bind fun bs =>
        (σ.store.blocksOf look after).map fun bs' => bs ++ one ++ two ++ bs' := by
  have old {ns : List NodeId} (hns : ∀ x ∈ ns, x < σ.store.next) :
      s.blocksOf look ns = σ.store.blocksOf look ns :=
    Store.blocksOf_congr fun x hx => hblock x (hns x hx)
  have hsplit : before ++ (σ.store.forest.preorder p ++ (C ++ D)) ++ after =
      before ++ σ.store.forest.preorder p ++ C ++ D ++ after := by
    simp only [List.append_assoc]
  rw [hr, hsplit, Store.blocksOf_append, Store.blocksOf_append, Store.blocksOf_append, hone, htwo,
    old fun x hx => hmem x (List.mem_append_left _ hx),
    old fun x hx => hmem x (List.mem_append_right _ hx)]
  cases σ.store.blocksOf look (before ++ σ.store.forest.preorder p) <;> rfl

/-- What comes before and after two trees is shown in both sessions or in neither. -/
theorem swapped_of_blocks {r : NodeId} {one two : List String} {x y : Except Error (List String)}
    (first : σ₂.store.blocks σ₂.hostName c = .ok one)
    (second : σ₂.store.blocks σ₂.hostName d = .ok two)
    (left : σ₂.store.blocks σ₂.hostName r =
      x.bind fun bs => y.map fun bs' => bs ++ one ++ two ++ bs')
    (right : σ₂'.store.blocks σ₂'.hostName r =
      x.bind fun bs => y.map fun bs' => bs ++ two ++ one ++ bs') : σ₂.Swapped σ₂' c d r := by
  have css {σ : Session} : σ.css r = (σ.store.blocks σ.hostName r).map String.join := rfl
  cases x with
  | error e => exact .failed e (by rw [css, left]; rfl) (by rw [css, right]; rfl)
  | ok bs =>
    cases y with
    | error e => exact .failed e (by rw [css, left]; rfl) (by rw [css, right]; rfl)
    | ok bs' =>
      exact .serialized bs one two bs' first second left right (by rw [css, left]; rfl)
        (by rw [css, right]; rfl)

namespace Exchanged

variable {x q : NodeId} (h : σ.Exchanged p c d f σ₂ σ₂') (look : Appearance)
include h

/-- What was there only has other children. -/
theorem get_old (hx : x < σ.store.next) : ∃ children children',
    σ₂.store.get x = { σ.store.get x with children } ∧
      σ₂'.store.get x = { σ.store.get x with children := children' } := by
  by_cases he : x = p
  · exact ⟨_, _, he ▸ h.children, he ▸ h.exchanged⟩
  · exact ⟨_, _, h.kept x hx he⟩

theorem block?_old (hx : x < σ.store.next) :
    σ₂.store.block? look x = σ.store.block? look x ∧
      σ₂'.store.block? look x = σ.store.block? look x := by
  obtain ⟨_, _, h₁, h₂⟩ := h.get_old hx
  exact ⟨Store.block?_of_get h₁ h.options.1 look, Store.block?_of_get h₂ h.options.2 look⟩

/-- Rule sets that can have been written on have texts as selectors in the one session. -/
theorem written (hw : ∀ x, (σ.store.get x).Written) (x : NodeId) : (σ₂.store.get x).Written := by
  by_cases hx : x < σ.store.next
  · obtain ⟨_, _, h₁, -⟩ := h.get_old hx
    rw [h₁]
    exact hw x
  by_cases hx' : x < σ₂.store.next
  · exact fun _ => Datum.exists_of_isText (h.texts x (Nat.not_lt.1 hx) hx')
  · rw [Store.get_of_next_le (Nat.not_lt.1 hx')]
    exact fun hne => absurd rfl hne

/-- Rule sets that can have been written on have texts as selectors in the other session. -/
theorem written' (hw : ∀ x, (σ.store.get x).Written) (x : NodeId) :
    (σ₂'.store.get x).Written := by
  obtain ⟨y, rfl⟩ := f.surjective x
  by_cases hy : y < σ.store.next
  · obtain ⟨_, _, -, h₂⟩ := h.get_old hy
    rw [h.older y hy, h₂]
    exact hw y
  · rw [h.made y (Nat.not_lt.1 hy)]
    exact h.written hw y

omit h in
theorem next_le_of_mem_preorder (hq : σ.store.next ≤ q) (hx : x ∈ σ₂.store.forest.preorder q) :
    σ.store.next ≤ x := Nat.le_trans hq (Store.descends_of_mem_preorder hx).le

/-- The tree of what was made since has the same blocks under its other number. -/
theorem blocksOf_made (hq : σ.store.next ≤ q) :
    σ₂'.store.blocksOf look (σ₂'.store.forest.preorder (f q)) =
      σ₂.store.blocksOf look (σ₂.store.forest.preorder q) := by
  have hmap : σ₂'.store.forest.preorder (f q) = (σ₂.store.forest.preorder q).map f :=
    Store.preorder_renumber fun x hx => h.made x (next_le_of_mem_preorder hq hx)
  unfold Store.blocksOf
  rw [hmap, List.mapM_map]
  exact congrArg _ (mapM_congr fun x hx =>
    Store.block?_of_get (h.made x (next_le_of_mem_preorder hq hx))
      (h.options.2.trans h.options.1.symm) look)

/-- The tree of a child that was made since has blocks. -/
theorem exists_blocksOf_made (hq : q ∈ (σ₂.store.get p).children) (hle : σ.store.next ≤ q) :
    ∃ bs, σ₂.store.blocksOf look (σ₂.store.forest.preorder q) = .ok bs :=
  Store.exists_blocksOf look fun x hx => h.texts x (next_le_of_mem_preorder hle hx)
    (Forest.preorder_closed (P := (· < σ₂.store.next)) (Forest.lt_size_of_mem_children hq)
      (fun _ _ _ hc => Forest.lt_size_of_mem_children hc) hx)

/-- After both orders the serialization of any tree with the rule set in it differs in that the
blocks of its last two children are exchanged. -/
theorem swapped (lt : p < σ.store.next) (single : ∀ q, (σ.store.get q).children.Nodup)
    (hw : ∀ x, (σ.store.get x).Written) {r : NodeId} (hr : p ∈ σ₂.store.forest.preorder r) :
    σ₂.Swapped σ₂' c d r := by
  have hp : p ∈ σ.store.forest.preorder r := Store.mem_preorder_of_older (fun x hx =>
    (h.kept x (Nat.lt_trans hx lt) (Nat.ne_of_lt hx)).1) hr
  have hlt {x : NodeId} (hx : x ∈ σ.store.forest.preorder r) : x < σ.store.next :=
    Forest.preorder_closed (P := (· < σ.store.next))
      (Nat.lt_of_le_of_lt (Store.descends_of_mem_preorder hp).le lt)
      (fun _ _ _ hc => Forest.lt_size_of_mem_children hc) hx
  obtain ⟨before, after, hmem, around⟩ := Store.exists_preorder_around single hp
  have hmem (x : NodeId) (hx : x ∈ before ++ σ.store.forest.preorder p ++ after) :
      x < σ.store.next := by
    rcases List.mem_append.1 hx with hx | hx
    · rcases List.mem_append.1 hx with hx | hx
      · exact hlt (hmem x (List.mem_append_left _ hx))
      · exact hlt (Forest.mem_preorder_trans hp hx)
    · exact hlt (hmem x (List.mem_append_right _ hx))
  let look : Appearance := σ.appearance
  have hchildren : (σ₂.store.get p).children = (σ.store.get p).children ++ [c, d] :=
    congrArg RuleSet.children h.children
  obtain ⟨one, hone⟩ := h.exists_blocksOf_made look (hchildren ▸ by simp) h.since.1
  obtain ⟨two, htwo⟩ := h.exists_blocksOf_made look (hchildren ▸ by simp) h.since.2
  have left := blocks_around (fun x hx => (h.block?_old look hx).1) hmem (by
    rw [around _ fun x hx hne => (h.kept x (hlt hx) hne).1, preorder_of_children
      lt (fun x hx hne => (h.kept x hx hne).1) hchildren, List.flatMap_cons, List.flatMap_cons,
      List.flatMap_nil, List.append_nil]) hone htwo
  have right := blocks_around (fun x hx => (h.block?_old look hx).2) hmem (by
    rw [around _ fun x hx hne => (h.kept x (hlt hx) hne).2, preorder_of_children
      lt (fun x hx hne => (h.kept x hx hne).2) (congrArg RuleSet.children h.exchanged),
      List.flatMap_cons, List.flatMap_cons, List.flatMap_nil, List.append_nil])
    ((h.blocksOf_made look h.since.2).trans htwo) ((h.blocksOf_made look h.since.1).trans hone)
  rw [← Store.blocks_eq (fun x _ => h.written hw x) σ₂.hostName look] at left hone htwo
  rw [← Store.blocks_eq (fun x _ => h.written' hw x) σ₂'.hostName look] at right
  exact swapped_of_blocks hone htwo left right

end Exchanged

end Session

namespace Machine

/-! ### Selections -/

/-- Successive selections on a rule set, by texts and generators, each of which succeeds. Each one
begins where the one before was completed. -/
inductive Selects (t : Target) : List (String × Generator) → Machine → Machine → Prop
  | none (m : Machine) : Selects t [] m m
  | more {fragment : String} {g : Generator} {rest : List (String × Generator)} {m m₁ m₂ : Machine}
    {tag : Tag} {a : Result} (first : m.Performs tag (selection t fragment g) (.ok a) m₁)
    (next : Selects t rest { m₁ with settled := .none } m₂) :
    Selects t ((fragment, g) :: rest) m m₂

/-- Two selections on a rule set can be made in either order. -/
structure SelectsEitherWay (m : Machine) (t : Target) (p : NodeId) (one two : String × Generator) :
    Prop where
  /-- both succeed in the one order if they do so in the other -/
  completes : (∃ m₂, m.Selects t [one, two] m₂) ↔ ∃ m₂, m.Selects t [two, one] m₂
  /-- then the two states are the same, but for the numbers of rule sets, and except that the last
  two children of the rule set are exchanged, and so are their blocks wherever it is serialized -/
  same : ∀ m₂ m₂', m.Selects t [one, two] m₂ → m.Selects t [two, one] m₂' →
    ∃ c d f, m.session.Exchanged p c d f m₂.session m₂'.session ∧
      ∀ r, p ∈ m₂.session.store.forest.preorder r → m₂.session.Swapped m₂'.session c d r

section Twice

variable {m : Machine} {generators : List Generator} {t : Target} {p : NodeId} {selector : String}
  {one two : String × Generator}

/-- Two selections that succeed one after the other succeed in the other order as well. -/
theorem select_twice (target : m.session.target t = .node p) (lt : p < m.session.store.next)
    (isText : (m.session.store.get p).selector = .text selector) (own : m.Grows m generators)
    (hand₁ : m.session.AtHand one.2) (hand₂ : m.session.AtHand two.2) (mem₁ : one.2 ∈ generators)
    (mem₂ : two.2 ∈ generators)
    (contained₁ : m.session.SelfContained (m.session.store.optionsOf p).className
      (m.session.bodyOf one.2))
    (contained₂ : m.session.SelfContained (m.session.store.optionsOf p).className
      (m.session.bodyOf two.2)) {tag₁ tag₂ : Tag} {a b : Result} {m₁ m₂ : Machine}
    (first : m.Performs tag₁ (selection t one.1 one.2) (.ok a) m₁)
    (second : { m₁ with settled := .none }.Performs tag₂ (selection t two.1 two.2) (.ok b) m₂)
    (tag₁' tag₂' : Tag) : ∃ m₁' m₂', m.Performs tag₂' (selection t two.1 two.2) (.ok b) m₁' ∧
      { m₁' with settled := .none }.Performs tag₁' (selection t one.1 one.2) (.ok a) m₂' ∧
      ∃ c d f, m.session.Exchanged p c d f m₂.session m₂'.session := by
  obtain ⟨bodies₁, closes₁, body₁⟩ := contained₁
  obtain ⟨bodies₂, closes₂, body₂⟩ := contained₂
  -- the second one succeeds at once, because it does so after the first one
  have bears₁ : m.session.Bears m₁.session p := by
    obtain ⟨_, _, -, chosen⟩ := (select_corresponds own.settled target lt isText closes₁ body₁ hand₁
      mem₁ own own tag₁ tag₁).forth first
    cases chosen with
    | failed e left => cases left
    | completed a left right bears => exact bears
  have grown₁ := own.of_performs hand₁ mem₁ first bears₁
  obtain ⟨r, m₁', first', chosen⟩ := (select_corresponds own.settled target lt isText closes₂ body₂
    hand₂ mem₂ own grown₁ tag₂' tag₂).back second
  cases chosen with
  | failed e left right => cases right
  | completed b left right bears₁' bears₂ copies' =>
    cases left
    cases right
    -- and the first one succeeds after the second one, because it has succeeded at once
    have grown₁' := own.of_performs hand₂ mem₂ first' bears₁'
    obtain ⟨r', m₂', second', chosen⟩ := (select_corresponds own.settled target lt isText closes₁
      body₁ hand₁ mem₁ own grown₁' tag₁ tag₁').forth first
    cases chosen with
    | failed e left => cases left
    | completed a left right _ bears₂' copies =>
      cases left
      cases right
      exact ⟨m₁', m₂', first', second', _, _, _,
        Session.exchanged_of_bears bears₁ bears₂ bears₁' bears₂' copies copies' lt⟩

end Twice

/-- On a rule set whose selector is a text, two selections by texts and self-contained generators
can be made in either order. -/
theorem selectsEitherWay (s : Script) (k : Nat) {t : Target} {p : NodeId} {selector : String}
    {one two : String × Generator} (settled : (run k (load s)).settled = none)
    (target : (run k (load s)).session.target t = .node p)
    (isText : ((run k (load s)).session.store.get p).selector = .text selector)
    (hand₁ : (run k (load s)).session.AtHand one.2) (hand₂ : (run k (load s)).session.AtHand two.2)
    (contained₁ : (run k (load s)).session.SelfContained
      ((run k (load s)).session.store.optionsOf p).className ((run k (load s)).session.bodyOf one.2))
    (contained₂ : (run k (load s)).session.SelfContained
      ((run k (load s)).session.store.optionsOf p).className
      ((run k (load s)).session.bodyOf two.2)) :
    (run k (load s)).SelectsEitherWay t p one two := by
  have lt := lt_of_target s k target
  have own : (run k (load s)).Grows (run k (load s)) [one.2, two.2] :=
    grows_refl s k settled fun g hg => by
      rcases List.mem_cons.1 hg with rfl | hg
      · exact hand₁
      · exact List.mem_singleton.1 hg ▸ hand₂
  have mem₁ : one.2 ∈ [one.2, two.2] := List.mem_cons_self
  have mem₂ : two.2 ∈ [one.2, two.2] := List.mem_cons_of_mem _ List.mem_cons_self
  have single := (owned s k).single
  have written (x : NodeId) : ((run k (load s)).session.store.get x).Written :=
    fun hne => (unwritten s k x hne).imp fun _ hx => hx.1
  generalize run k (load s) = m at *
  refine ⟨⟨?_, ?_⟩, fun m₂ m₂' h h' => ?_⟩
  · rintro ⟨m₂, h⟩
    obtain _ | ⟨first, _ | ⟨second, _ | _⟩⟩ := h
    obtain ⟨m₁', m₂', first', second', -⟩ := select_twice target lt isText own hand₁ hand₂ mem₁ mem₂
      contained₁ contained₂ first second ⟨[], none, none⟩ ⟨[], none, none⟩
    exact ⟨_, .more first' (.more second' (.none _))⟩
  · rintro ⟨m₂, h⟩
    obtain _ | ⟨first, _ | ⟨second, _ | _⟩⟩ := h
    obtain ⟨m₁', m₂', first', second', -⟩ := select_twice target lt isText own hand₂ hand₁ mem₂ mem₁
      contained₂ contained₁ first second ⟨[], none, none⟩ ⟨[], none, none⟩
    exact ⟨_, .more first' (.more second' (.none _))⟩
  · obtain _ | ⟨first, _ | ⟨second, _ | _⟩⟩ := h
    obtain _ | ⟨first', _ | ⟨second', _ | _⟩⟩ := h'
    obtain ⟨n₁, n₂, hn₁, hn₂, c, d, f, hf⟩ := select_twice target lt isText own hand₁ hand₂ mem₁ mem₂
      contained₁ contained₂ first second _ _
    obtain ⟨-, rfl⟩ := hn₁.unique first'
    obtain ⟨-, rfl⟩ := hn₂.unique second'
    exact ⟨c, d, f, hf, fun r hr => hf.swapped lt single written hr⟩

end Machine

/-- A script that builds a rule set with a custom property, and has generators that fill rule sets. -/
def Script.branching : Script where
  steps := [.mk (.build (.text "div") (.inline [
    .mk (.define (.enclosing 0) "l" (.text "w")) none none]) none []) (some "r") none]
  generators := .ofList [("fill", Body.filling), ("nest", Body.nesting)]
  logs := true

theorem Machine.selectsEitherWay_branching :
    (∃ m₂, (run 5 (load .branching)).Selects (.handle "r")
      [(" a", .named "fill"), (" b", .named "nest")] m₂) ∧
    (run 5 (load .branching)).SelectsEitherWay (.handle "r") 0
      (" a", .named "fill") (" b", .named "nest") := by
  have hfill : (run 5 (load .branching)).session.bodyOf (.named "fill") = Body.filling :=
    bodyOf_named .branching 5 "fill"
  have hnest : (run 5 (load .branching)).session.bodyOf (.named "nest") = Body.nesting :=
    bodyOf_named .branching 5 "nest"
  obtain ⟨_, first⟩ := cleanly_of_run (run 5 (load .branching)) ⟨[], none, none⟩
    (selection (.handle "r") " a" (.named "fill")) 22 (by decide +kernel) (by decide +kernel)
    (by decide +kernel) (by decide +kernel)
  obtain ⟨_, second⟩ := cleanly_of_run
    { run 22 ((run 5 (load .branching)).perform ⟨[], none, none⟩
        (selection (.handle "r") " a" (.named "fill"))) with settled := .none }
    ⟨[], none, none⟩ (selection (.handle "r") " b" (.named "nest")) 6 (by decide +kernel)
    (by decide +kernel) (by decide +kernel) (by decide +kernel)
  exact ⟨⟨_, .more first.performs (.more second.performs (.none _))⟩,
    selectsEitherWay .branching 5 (Option.isNone_iff_eq_none.1 (by decide +kernel))
      (Session.target_handle (by decide +kernel)) (by with_unfolding_all rfl)
      (Session.atHand_named _ _) (Session.atHand_named _ _)
      (hfill ▸ Session.selfContained_filling _ _) (hnest ▸ Session.selfContained_nesting _ _)⟩

end RuleTree
