import Mathlib.Data.List.ReduceOption
import RuleTree.Proofs.Blocks.Sources
import RuleTree.Proofs.Rebuilding.Statements
import RuleTree.Session.Read

/-!
# The shapes of trees

* `Shape`, `Store.shape`: a rule set with everything below it, whatever numbers tell its rule sets
  and the objects that it refers to apart;
* `Session.SameTree`: two trees that have the same shape and the same text;
* `RuleSet.block?_congr`: rule sets that are the same up to numbers have the same block;
* `RuleSet.block?_led`: a text before the selector stands before the block as well;
* `Store.blocks_eq`: a tree has the blocks of its rule sets;
* `Pairing.Mirrors.shape`, `Pairing.Mirrors.blocks`: a rule set of the second store and what stands
  for it in the first one have the same shape and the same blocks, but for the text before
  selectors, if there was nothing before;
* `Pairing.Mirrors.blocks_root`, `Pairing.Mirrors.css_root`: if the roots have no blocks of their
  own, the blocks of the second one come after those of what was there before.
-/

namespace RuleTree

/-- A rule set with everything below it, apart from the numbers that tell objects apart. -/
inductive Shape
  | node (selector : Datum) (text : String) (scope : Table String) (children : List Shape)

/-- A shape with a text before all selectors. -/
def Shape.led (lead : String) : Shape → Shape
  | node selector text scope children =>
    node (selector.led lead) text scope (children.attach.map fun ⟨c, _⟩ => c.led lead)

theorem Shape.led_node (lead : String) (selector : Datum) (text : String) (scope : Table String)
    (children : List Shape) : (node selector text scope children).led lead =
      node (selector.led lead) text scope (children.map (Shape.led lead)) := by
  conv => lhs; unfold led
  simp

theorem Shape.led_empty : (t : Shape) → t.led "" = t
  | .node selector text scope children => by
    rw [led_node, Datum.led_empty]
    refine congrArg (node selector text scope) ?_
    exact (List.map_congr_left fun c _ => led_empty c).trans (List.map_id' _)

namespace Store

/-- The shape of a tree. -/
def shape (s : Store) (n : NodeId) : Shape :=
  .node (s.get n).selector.bare (s.get n).text (s.get n).scope
    ((s.get n).children.attach.map fun ⟨c, _⟩ => shape s c)
termination_by s.forest.size - n
decreasing_by
  rename_i h
  exact Nat.sub_lt_sub_left
    (Nat.lt_trans (Forest.lt_of_mem_children h) (Forest.lt_size_of_mem_children h))
    (Forest.lt_of_mem_children h)

theorem shape_eq (s : Store) (n : NodeId) :
    s.shape n = .node (s.get n).selector.bare (s.get n).text (s.get n).scope
      ((s.get n).children.map s.shape) := by
  conv => lhs; unfold shape
  simp

/-- The shape of a tree only depends on its own rule sets. -/
theorem shape_congr {s t : Store} {n : NodeId}
    (h : ∀ x ∈ s.forest.preorder n, t.get x = s.get x) : t.shape n = s.shape n := by
  induction n using s.forest.treeInduction with
  | step n ih =>
    rw [shape_eq, shape_eq, h n (Forest.mem_preorder_self _ n)]
    refine congrArg (Shape.node _ _ _) (List.map_congr_left fun c hc => ih c hc fun x hx => h x ?_)
    exact Forest.mem_preorder_iff.2 (.inr ⟨c, hc, hx⟩)

/-- The rule sets that are in a tree only depend on themselves. -/
theorem preorder_congr {s t : Store} {n : NodeId}
    (h : ∀ x ∈ s.forest.preorder n, t.get x = s.get x) :
    t.forest.preorder n = s.forest.preorder n :=
  Forest.preorder_congr fun x hx => congrArg RuleSet.children (h x hx)

end Store

/-! ### Blocks -/

/-- Having text only if the selector is one. -/
def RuleSet.Written (r : RuleSet) : Prop := r.text ≠ "" → ∃ t, r.selector = .text t

namespace RuleSet

variable {r r' : RuleSet}

/-- Without a text for a selector, there is no block, whatever objects look like. -/
theorem block?_of_not_text (ht : r.text = "") (hs : ∀ t, r.selector ≠ .text t) (look : Appearance)
    (emit : Bool) : r.block? look emit =
      if emit && !r.scope.entries.isEmpty then .error .selectorNotText else .ok none := by
  have hi : incomplete? r.selector = .error .selectorNotText := by
    unfold incomplete? Combinator.terminates?
    rw [if_neg (by decide)]
    split
    · rename_i h
      exact absurd h (hs _)
    · rfl
  unfold block? body properties
  rw [hi, ht]
  split <;> rfl

/-- Rule sets that are the same up to numbers have the same block. -/
theorem block?_congr (hs : r.selector.bare = r'.selector.bare) (ht : r.text = r'.text)
    (hsc : r.scope = r'.scope) (hw : r'.Written) (look look' : Appearance) (emit : Bool) :
    r.block? look emit = r'.block? look' emit := by
  by_cases htext : ∃ t, r'.selector = .text t
  · obtain ⟨t, h'⟩ := htext
    have h : r.selector = .text t := Datum.eq_text_of_bare (by rw [hs, h']; rfl)
    unfold block? body properties
    rw [h, h', ht, hsc]
    rfl
  · have hn' (t : String) : r'.selector ≠ .text t := fun h => htext ⟨t, h⟩
    have hn (t : String) : r.selector ≠ .text t := fun h =>
      hn' t (Datum.eq_text_of_bare (by rw [← hs, h]; rfl))
    have he' : r'.text = "" := Decidable.byContradiction fun h => htext (hw h)
    rw [block?_of_not_text (ht.trans he') hn, block?_of_not_text he' hn', hsc]

theorem body_led {lead : String} (hl : Leading lead) (r : RuleSet) (emit : Bool) :
    body { r with selector := r.selector.led lead } emit = r.body emit := by
  unfold body properties
  rw [hl.incomplete?]

/-- A text before the selector stands before the block as well. -/
theorem block?_led {lead : String} (hl : Leading lead) (hr : r.Written) (look : Appearance)
    (emit : Bool) : block? { r with selector := r.selector.led lead } look emit =
      (r.block? look emit).map (Option.map (lead ++ ·)) := by
  by_cases htext : ∃ t, r.selector = .text t
  · obtain ⟨t, ht⟩ := htext
    unfold block?
    rw [body_led hl]
    cases r.body emit with
    | error e => rfl
    | ok body =>
      show (if body = "" then _ else _) = Except.map _ (if body = "" then _ else _)
      by_cases hb : body = ""
      · rw [if_pos hb, if_pos hb]
        rfl
      · rw [if_neg hb, if_neg hb, ht]
        show Except.ok (some (blockText (lead ++ t) body)) =
          .ok (some (lead ++ blockText t body))
        unfold blockText
        rw [String.append_assoc, String.append_assoc, String.append_assoc, String.append_assoc,
          String.append_assoc]
  · have hn (t : String) : r.selector ≠ .text t := fun h => htext ⟨t, h⟩
    have he : r.text = "" := Decidable.byContradiction fun h => htext (hr h)
    rw [Datum.led_of_not_text hn]
    show r.block? look emit = _
    rw [block?_of_not_text he hn]
    split <;> rfl

/-- A scope with anything in it has lines. -/
theorem scopeLines_ne_empty {scope : Table String} (h : scope.entries ≠ []) :
    scopeLines scope ≠ "" := by
  obtain ⟨e, rest, he⟩ := List.exists_cons_of_ne_nil h
  unfold scopeLines propertyLine
  rw [he, List.map_cons, String.join_cons]
  intro hc
  have hl := congrArg String.length hc
  simp only [String.length_append] at hl
  exact absurd hl (by simp)

/-- Only of texts it can be said that they await a target. -/
theorem exists_text_of_incomplete? {d : Datum} {b : Bool} (h : incomplete? d = .ok b) :
    ∃ t, d = .text t := by
  unfold incomplete? Combinator.terminates? at h
  rw [if_neg (by decide)] at h
  split at h
  · exact ⟨_, rfl⟩
  · cases h

/-- What has no block has no text, and no custom properties that are to be written. -/
theorem block?_eq_none_iff {look : Appearance} {emit : Bool} : r.block? look emit = .ok none ↔
    r.text = "" ∧ (emit = true → r.scope.entries ≠ [] → incomplete? r.selector = .ok true) := by
  have hb : r.block? look emit = .ok none ↔ r.body emit = .ok "" := by
    unfold block?
    cases r.body emit with
    | error e => exact ⟨nofun, nofun⟩
    | ok body =>
      by_cases he : body = ""
      · subst he
        exact ⟨fun _ => rfl, fun _ => rfl⟩
      · refine ⟨fun h => ?_, fun h => absurd (Except.ok.inj h) he⟩
        change (if body = "" then _ else _) = _ at h
        rw [if_neg he] at h
        cases hs : r.selector.spelled look <;> rw [hs] at h <;> cases h
  have hp : r.body emit = .ok "" ↔ r.properties emit = .ok "" ∧ r.text = "" := by
    unfold body
    cases r.properties emit with
    | error e => exact ⟨nofun, fun h => nomatch h.1⟩
    | ok lines =>
      refine ⟨fun h => ?_, fun h => ?_⟩
      · obtain ⟨h₁, h₂⟩ := String.append_eq_empty_iff.1 (Except.ok.inj h)
        exact ⟨congrArg Except.ok h₁, h₂⟩
      · rw [Except.ok.inj h.1, h.2]
        rfl
  rw [hb, hp, and_comm]
  refine and_congr_right fun _ => ?_
  unfold properties
  by_cases hc : emit = true ∧ r.scope.entries ≠ []
  · rw [if_pos (by simpa using hc)]
    refine ⟨fun h _ _ => ?_, fun h => ?_⟩
    · cases hi : incomplete? r.selector with
      | error e => rw [hi] at h; cases h
      | ok i =>
        rw [hi] at h
        cases i with
        | true => rfl
        | false => exact absurd (Except.ok.inj h) (scopeLines_ne_empty hc.2)
    · rw [h hc.1 hc.2]
      rfl
  · rw [if_neg (by simpa using hc)]
    exact ⟨fun _ h₁ h₂ => absurd ⟨h₁, h₂⟩ hc, fun _ => rfl⟩

end RuleSet

namespace Store

variable {s t : Store} {n : NodeId}

/-- Whatever objects look like, a block is the same. -/
theorem block?_eq_of_written {x : NodeId} (h : (s.get x).Written) (look look' : Appearance) :
    s.block? look x = s.block? look' x := RuleSet.block?_congr rfl rfl rfl h look look' _

/-- The blocks of some rule sets, one after another. -/
def blocksOf (s : Store) (look : Appearance) (ns : List NodeId) : Except Error (List String) :=
  (ns.mapM (s.block? look)).map List.reduceOption

/-- A tree has the blocks of its rule sets. -/
theorem blocks_eq (hw : ∀ x ∈ s.forest.preorder n, (s.get x).Written)
    (hostName : HostId → String) (look : Appearance) :
    s.blocks hostName n = s.blocksOf look (s.forest.preorder n) := by
  unfold blocksOf
  rw [blocks, Cursor.drain_eq_mapM, Cursor.remaining_start,
    mapM_congr fun x hx => block?_eq_of_written (hw x hx) _ look]

/-- A rule set without a block adds nothing. -/
theorem blocksOf_cons_of_none {look : Appearance} (h : s.block? look n = .ok none)
    (ns : List NodeId) : s.blocksOf look (n :: ns) = s.blocksOf look ns := by
  unfold blocksOf
  rw [List.mapM_cons, h]
  show Except.map _ (Except.map _ _) = _
  cases ns.mapM (s.block? look) <;> rfl

theorem blocksOf_append (s : Store) (look : Appearance) (ms ns : List NodeId) :
    s.blocksOf look (ms ++ ns) =
      (s.blocksOf look ms).bind fun bs => (s.blocksOf look ns).map (bs ++ ·) := by
  unfold blocksOf
  rw [List.mapM_append]
  cases ms.mapM (s.block? look) with
  | error e => rfl
  | ok as =>
    cases ns.mapM (s.block? look) with
    | error e => rfl
    | ok bs =>
      show Except.ok (as ++ bs).reduceOption = .ok (_ ++ _)
      rw [List.reduceOption_append]

theorem blocksOf_congr {look look' : Appearance} {ns : List NodeId}
    (h : ∀ x ∈ ns, s.block? look x = t.block? look' x) : s.blocksOf look ns = t.blocksOf look' ns :=
  congrArg (Except.map _) (mapM_congr h)

/-- What stands for each of some rule sets has the same block, but for a text before it. -/
theorem blocksOf_map {look look' : Appearance} {ns : List NodeId} {lead : String}
    (f : NodeId → NodeId)
    (h : ∀ x ∈ ns, s.block? look (f x) = (t.block? look' x).map (Option.map (lead ++ ·))) :
    s.blocksOf look (ns.map f) = (t.blocksOf look' ns).map (List.map (lead ++ ·)) := by
  induction ns with
  | nil => rfl
  | cons x ns ih =>
    have ih := ih fun y hy => h y (List.mem_cons_of_mem _ hy)
    have one : s.blocksOf look [f x] = (t.blocksOf look' [x]).map (List.map (lead ++ ·)) := by
      unfold blocksOf
      rw [List.mapM_cons, List.mapM_cons, h x List.mem_cons_self]
      cases t.block? look' x with
      | error e => rfl
      | ok b => cases b <;> rfl
    rw [List.map_cons, ← List.singleton_append, blocksOf_append, one, ih,
      ← List.singleton_append (l := ns), blocksOf_append]
    cases t.blocksOf look' [x] with
    | error e => rfl
    | ok as =>
      cases t.blocksOf look' ns with
      | error e => rfl
      | ok bs => exact congrArg Except.ok List.map_append.symm

/-- The blocks of a tree only depend on its own rule sets and on the options. -/
theorem blocks_congr (h : ∀ x ∈ s.forest.preorder n, t.get x = s.get x) (ho : t.options = s.options)
    (hw : ∀ x ∈ s.forest.preorder n, (s.get x).Written) (hostName hostName' : HostId → String) :
    t.blocks hostName n = s.blocks hostName' n := by
  let look : Appearance := s.appearance hostName
  have hp : t.forest.preorder n = s.forest.preorder n := preorder_congr h
  rw [blocks_eq hw hostName' look, blocks_eq (fun x hx => ?_) hostName look, hp]
  · refine blocksOf_congr fun x hx => ?_
    unfold block? emits optionsOf
    rw [h x hx, ho]
  · rw [hp] at hx
    exact h x hx ▸ hw x hx

/-- Without a text before the blocks, the texts of trees are the same. -/
theorem css_of_blocks {hostName hostName' : HostId → String} {m : NodeId}
    (h : s.blocks hostName n = (t.blocks hostName' m).map (List.map ("" ++ ·))) :
    s.css hostName n = t.css hostName' m := by
  unfold css
  rw [h]
  cases t.blocks hostName' m with
  | error e => rfl
  | ok blocks => simp [Except.map]

end Store

/-- The tree of a rule set in one session is the same as that of another one in another session. -/
structure Session.SameTree (σ : Session) (n : NodeId) (σ' : Session) (n' : NodeId) : Prop where
  shape : σ.store.shape n = σ'.store.shape n'
  css : σ.css n = σ'.css n'

/-- Having no block of its own. -/
def Session.Blockless (σ : Session) (n : NodeId) : Prop :=
  σ.store.block? σ.appearance n = .ok none

/-- Holding nothing. -/
structure RuleSet.Blank (r : RuleSet) : Prop where
  text : r.text = ""
  children : r.children = []
  scope : r.scope = .empty

/-! ### What mirrors each other -/

namespace Pairing.Mirrors

variable {π : Pairing} {s s' : Store} {n x : NodeId}

theorem blank_of_le (h : π.right.next ≤ n) : (π.before n).Blank := by
  rw [before_of_le h]
  exact ⟨rfl, rfl, rfl⟩

section Blank

variable (h : π.Mirrors s s')
include h

/-- Where there was nothing before, what is in the first tree stands for what is in the second. -/
theorem preorder (hn : π.Inner s' n) (hb : (π.before n).Blank) :
    s.forest.preorder (π.image n) = (s'.forest.preorder n).map π.image := by
  induction n using s'.forest.treeInduction with
  | step n ih =>
    have hc : (s.forest.get (π.image n)).children = (s'.forest.get n).children.map π.image := by
      have hc := h.children n hn
      rw [hb.children, List.nil_append] at hc
      exact hc
    rw [Forest.preorder_eq, Forest.preorder_eq, hc, List.map_cons, List.flatMap_map,
      List.map_flatMap]
    refine congrArg (π.image n :: ·) (List.flatMap_congr fun c hc => ?_)
    exact ih c hc (h.inner_child hn hc) (blank_of_le (h.inner n hn c hc))

/-- What is below a rule set was made since the start as well. -/
theorem of_mem_preorder (hn : π.Inner s' n) (hb : (π.before n).Blank)
    (hx : x ∈ s'.forest.preorder n) : π.Inner s' x ∧ (π.before x).Blank :=
  Forest.preorder_closed (P := fun x => π.Inner s' x ∧ (π.before x).Blank) ⟨hn, hb⟩
    (fun p _ hp hc => ⟨h.inner_child hp.1 hc, blank_of_le (h.inner p hp.1 _ hc)⟩) hx

variable (hs : π.Led)
include hs

/-- The trees of a rule set and its image have the same shape, but for the text before selectors. -/
theorem shape (hn : π.Inner s' n) (hb : (π.before n).Blank) :
    s.shape (π.image n) = (s'.shape n).led π.lead := by
  induction n using s'.forest.treeInduction with
  | step n ih =>
    have hc := h.children n hn
    rw [hb.children, List.nil_append] at hc
    have ht := h.text n hn
    rw [hb.text, String.empty_append] at ht
    have hscope := h.scope n hn
    rw [hb.scope, Table.empty_insertAll] at hscope
    rw [Store.shape_eq, Store.shape_eq, Shape.led_node, h.selector hs hn, Datum.bare_led, ht, hscope,
      hc, List.map_map, List.map_map]
    refine congrArg (Shape.node _ _ _) (List.map_congr_left fun c hc => ?_)
    exact ih c hc (h.inner_child hn hc) (blank_of_le (h.inner n hn c hc))

/-- What stands for a rule set has the same block, but for the text before it. -/
theorem block? (ho : π.left.optionsOf π.root = π.right.optionsOf π.root') (hn : π.Inner s' n)
    (hb : (π.before n).Blank) (look look' : Appearance) :
    s.block? look (π.image n) = (s'.block? look' n).map (Option.map (π.lead ++ ·)) := by
  have ht := h.text n hn
  rw [hb.text, String.empty_append] at ht
  have hscope := h.scope n hn
  rw [hb.scope, Table.empty_insertAll] at hscope
  have he : s.emits (π.image n) = s'.emits n := by
    unfold Store.emits
    rw [(h.optionsOf hn).1, (h.optionsOf hn).2, ho]
  let led : RuleSet := { s'.get n with selector := (s'.get n).selector.led π.lead }
  have hw : led.Written := fun hne => by
    obtain ⟨t, htext⟩ := h.written n hn hne
    exact ⟨_, congrArg (Datum.led π.lead) htext⟩
  have hc := @RuleSet.block?_congr _ led (h.selector hs hn) ht hscope hw look look'
  unfold Store.block?
  rw [he]
  exact (hc _).trans (RuleSet.block?_led π.leading (h.written n hn) look' _)

/-- The image of a rule set has text only if its selector is one. -/
theorem written_image (hn : π.Inner s' n) (hb : (π.before n).Blank) :
    (s.get (π.image n)).Written := by
  have ht := h.text n hn
  rw [hb.text, String.empty_append] at ht
  intro hne
  obtain ⟨t, htext⟩ := h.written n hn (ht ▸ hne)
  exact ⟨π.lead ++ t, Datum.eq_text_of_bare (by rw [h.selector hs hn, htext]; rfl)⟩

theorem written_of_mem (hn : π.Inner s' n) (hb : (π.before n).Blank)
    (hx : x ∈ s.forest.preorder (π.image n)) : (s.get x).Written := by
  rw [h.preorder hn hb] at hx
  obtain ⟨y, hy, rfl⟩ := List.mem_map.1 hx
  obtain ⟨hi, hb⟩ := h.of_mem_preorder hn hb hy
  exact h.written_image hs hi hb

/-- The blocks are the same, but for the text before them. -/
theorem blocks (ho : π.left.optionsOf π.root = π.right.optionsOf π.root') (hn : π.Inner s' n)
    (hb : (π.before n).Blank) (hostName hostName' : HostId → String) :
    s.blocks hostName (π.image n) = (s'.blocks hostName' n).map (List.map (π.lead ++ ·)) := by
  have hw {x : NodeId} (hx : x ∈ s'.forest.preorder n) := h.of_mem_preorder hn hb hx
  let look : Appearance := s.appearance hostName
  rw [Store.blocks_eq (fun x => h.written_of_mem hs hn hb) _ look, Store.blocks_eq ?_ _ look,
    h.preorder hn hb]
  · exact Store.blocksOf_map _ fun x hx => h.block? hs ho (hw hx).1 (hw hx).2 look look
  · exact fun x hx => h.written x (hw hx).1

end Blank

/-- Without a text before selectors, the trees are the same. -/
theorem sameTree {σ σ' : Session} (h : π.Mirrors σ.store σ'.store) (hl : π.lead = "") (hs : π.Led)
    (ho : π.left.optionsOf π.root = π.right.optionsOf π.root') (hn : π.Inner σ'.store n)
    (hb : (π.before n).Blank) : σ.SameTree (π.image n) σ' n where
  shape := (h.shape hs hn hb).trans (hl ▸ Shape.led_empty _)
  css := Store.css_of_blocks (hl ▸ h.blocks hs ho hn hb σ.hostName σ'.hostName)

/-! ### What was there before -/

section Before

variable (h : π.Mirrors s s')
include h

/-- What the root listed at the start is as it was. -/
theorem get_below (hx : x ∈ (π.left.get π.root).children.flatMap π.left.forest.preorder) :
    x < π.left.next ∧ s.get x = π.left.get x := by
  obtain ⟨c, hc, hx⟩ := List.mem_flatMap.1 hx
  have key : π.root < x ∧ x < π.left.next :=
    Forest.preorder_closed (P := fun x => π.root < x ∧ x < π.left.next)
      ⟨Forest.lt_of_mem_children hc, Forest.lt_size_of_mem_children hc⟩
      (fun _ _ hp hd => ⟨Nat.lt_trans hp.1 (Forest.lt_of_mem_children hd),
        Forest.lt_size_of_mem_children hd⟩) hx
  exact ⟨key.2, h.older x key.2 (Nat.ne_of_gt key.1)⟩

/-- What is in the tree of the root now: what was in it at the start, and what was made since. -/
theorem preorder_root : s.forest.preorder π.root =
    π.left.forest.preorder π.root ++
      ((s'.get π.root').children.flatMap s'.forest.preorder).map π.image := by
  have hc := h.children π.root' .root
  rw [image_root, before_root] at hc
  rw [Forest.preorder_eq, Forest.preorder_eq,
    show (s.forest.get π.root).children = _ from hc, List.flatMap_append, List.flatMap_map,
    List.map_flatMap, List.cons_append]
  refine congrArg (π.root :: ·) (congrArg₂ (· ++ ·) (List.flatMap_congr fun c hc => ?_)
    (List.flatMap_congr fun c hc => ?_))
  · exact Store.preorder_congr fun x hx =>
      (h.get_below (List.mem_flatMap.2 ⟨c, hc, hx⟩)).2
  · exact h.preorder (h.inner_child .root hc) (blank_of_le (h.inner _ .root c hc))

/-- Whether custom properties are written stays the same. -/
theorem emits_root (ho : π.left.optionsOf π.root = π.right.optionsOf π.root') :
    s.emits π.root = π.left.emits π.root ∧ s'.emits π.root' = π.left.emits π.root := by
  have hi := h.optionsOf (n := π.root') (.inl rfl)
  rw [image_root] at hi
  unfold Store.emits
  rw [hi.1, hi.2, ho]
  exact ⟨rfl, rfl⟩

/-- A root that has no block now has got nothing to make one of. -/
theorem block?_root' (hs : π.Led) (ho : π.left.optionsOf π.root = π.right.optionsOf π.root')
    {look : Appearance} (ha : s.block? look π.root = .ok none) (look' : Appearance) :
    s'.block? look' π.root' = .ok none := by
  obtain ⟨ht, hp⟩ := RuleSet.block?_eq_none_iff.1 ha
  obtain ⟨he, he'⟩ := h.emits_root ho
  have htext := h.text π.root' .root
  have hscope := h.scope π.root' .root
  have hsel := h.selector hs (n := π.root') (.inl rfl)
  rw [image_root] at htext hscope hsel
  refine RuleSet.block?_eq_none_iff.2 ⟨?_, fun hem hne => ?_⟩
  · rw [ht] at htext
    exact (String.append_eq_empty_iff.1 htext.symm).2
  · have hi : incomplete? (s.get π.root).selector = .ok true := by
      refine hp (he.trans (he'.symm.trans hem)) fun hnil => ?_
      obtain ⟨e, rest, hcons⟩ := List.exists_cons_of_ne_nil hne
      have hk : e.1 ∈ ((s'.get π.root').scope).keys := by
        unfold Table.keys
        rw [hcons]
        exact List.mem_cons_self
      have hmem : e.1 ∈ (s.get π.root).scope.keys := by
        rw [hscope, Table.mem_keys_insertAll]
        exact .inr (List.mem_map_of_mem (f := Prod.fst) (hcons ▸ List.mem_cons_self))
      unfold Table.keys at hmem
      rw [hnil] at hmem
      cases hmem
    obtain ⟨t, hsel'⟩ := RuleSet.exists_text_of_incomplete? hi
    rw [hsel'] at hsel hi
    rw [← π.leading.incomplete?, Datum.eq_text_of_bare hsel.symm, hi]

/-- A root has no block if it had none and has got nothing to make one of. -/
theorem block?_root (hs : π.Led) (ho : π.left.optionsOf π.root = π.right.optionsOf π.root')
    {look look' : Appearance} (hb : π.left.block? look π.root = .ok none)
    (ha : s'.block? look' π.root' = .ok none) (look'' : Appearance) :
    s.block? look'' π.root = .ok none := by
  obtain ⟨ht, hp⟩ := RuleSet.block?_eq_none_iff.1 hb
  obtain ⟨ht', hp'⟩ := RuleSet.block?_eq_none_iff.1 ha
  obtain ⟨he, he'⟩ := h.emits_root ho
  have htext := h.text π.root' .root
  have hscope := h.scope π.root' .root
  have hsel := h.selector hs (n := π.root') (.inl rfl)
  rw [image_root, before_root] at htext hscope
  rw [image_root] at hsel
  refine RuleSet.block?_eq_none_iff.2 ⟨by rw [htext, ht, ht']; rfl, fun hem hne => ?_⟩
  by_cases hold : (π.left.get π.root).scope.entries = []
  · have hnew : (s'.get π.root').scope.entries ≠ [] := fun hnil => hne <| by
      rw [hscope, hnil]
      exact hold
    have hi := hp' (he'.trans (he.symm.trans hem)) hnew
    obtain ⟨t, hsel'⟩ := RuleSet.exists_text_of_incomplete? hi
    rw [hsel'] at hsel hi
    rw [← π.leading.incomplete?] at hi
    rw [Datum.eq_text_of_bare hsel]
    exact hi
  · rw [h.root.selector]
    exact hp (he.symm.trans hem) hold

/-- There is text only where the selector is one, if it was so at the start. -/
theorem written_all (hs : π.Led) (hw : ∀ x < π.left.next, (π.left.get x).Written) (x : NodeId)
    (hx : x < s.next) : (s.get x).Written := by
  have root : (s.get π.root).Written := by
    have htext := h.text π.root' .root
    rw [image_root, before_root] at htext
    intro hne
    by_cases ht : (π.left.get π.root).text = ""
    · rw [ht, String.empty_append] at htext
      obtain ⟨t, ht'⟩ := h.written π.root' .root (htext ▸ hne)
      have hsel := h.selector hs (n := π.root') (.inl rfl)
      rw [image_root, ht'] at hsel
      exact ⟨_, Datum.eq_text_of_bare hsel⟩
    · rw [h.root.selector]
      exact hw _ π.root_lt ht
  by_cases hr : x = π.root
  · exact hr ▸ root
  rcases Nat.lt_or_ge x π.left.next with hlt | hge
  · rw [h.older x hlt hr]
    exact hw x hlt
  · have key (a b c d x : Nat) : a + b = c + d → d ≤ x → x < a →
        b ≤ x - d + b ∧ x - d + b < c ∧ x - d + b - b + d = x := by omega
    obtain ⟨h₁, h₂, h₃⟩ := key _ _ _ _ _ h.next hge hx
    have hw' := h.written_image hs (.inr ⟨h₁, h₂⟩) (blank_of_le h₁)
    rw [image_of_le h₁, h₃] at hw'
    exact hw'

theorem written_before (hw : ∀ x < π.left.next, (π.left.get x).Written)
    (hx : x ∈ π.left.forest.preorder π.root) : (π.left.get x).Written := by
  rw [Forest.preorder_eq] at hx
  rcases List.mem_cons.1 hx with rfl | hx
  · exact hw _ π.root_lt
  · exact hw x (h.get_below hx).1

/-- If the root has no block of its own, what was made since comes after what was there before. -/
theorem blocks_root (hs : π.Led) (ho : π.left.optionsOf π.root = π.right.optionsOf π.root')
    (hw : ∀ x < π.left.next, (π.left.get x).Written) {look : Appearance}
    (hb : π.left.block? look π.root = .ok none) (ha : s.block? look π.root = .ok none)
    (hostName hostName' : HostId → String) : s.blocks hostName π.root =
      (π.left.blocks hostName π.root).bind fun old =>
        (s'.blocks hostName' π.root').map fun new => old ++ new.map (π.lead ++ ·) := by
  have below {x : NodeId} (hx : x ∈ (s'.get π.root').children.flatMap s'.forest.preorder) :
      π.Inner s' x ∧ (π.before x).Blank := by
    obtain ⟨c, hc, hx⟩ := List.mem_flatMap.1 hx
    exact h.of_mem_preorder (h.inner_child .root hc) (blank_of_le (h.inner _ .root c hc)) hx
  have hroot' := h.block?_root' hs ho ha look
  have hpre' : s'.forest.preorder π.root' =
      π.root' :: (s'.get π.root').children.flatMap s'.forest.preorder := Forest.preorder_eq ..
  have hpre : π.left.forest.preorder π.root =
      π.root :: (π.left.get π.root).children.flatMap π.left.forest.preorder := Forest.preorder_eq ..
  -- nothing is written at the roots, before or after
  have right : s'.blocks hostName' π.root' =
      s'.blocksOf look ((s'.get π.root').children.flatMap s'.forest.preorder) := by
    rw [Store.blocks_eq ?_ _ look, hpre', Store.blocksOf_cons_of_none hroot']
    intro x hx
    rw [hpre'] at hx
    rcases List.mem_cons.1 hx with rfl | hx
    · exact h.written _ .root
    · exact h.written x (below hx).1
  have left : π.left.blocks hostName π.root =
      π.left.blocksOf look ((π.left.get π.root).children.flatMap π.left.forest.preorder) := by
    rw [Store.blocks_eq (fun x => h.written_before hw) _ look, hpre, Store.blocksOf_cons_of_none hb]
  rw [Store.blocks_eq ?_ _ look, h.preorder_root, hpre, List.cons_append,
    Store.blocksOf_cons_of_none ha, Store.blocksOf_append, left, right]
  · have hA : s.blocksOf look ((π.left.get π.root).children.flatMap π.left.forest.preorder) =
        π.left.blocksOf look ((π.left.get π.root).children.flatMap π.left.forest.preorder) := by
      refine Store.blocksOf_congr fun x hx => ?_
      unfold Store.block? Store.emits Store.optionsOf
      rw [(h.get_below hx).2, h.options]
    rw [hA, Store.blocksOf_map _ fun x hx => h.block? hs ho (below hx).1 (below hx).2 look look]
    cases s'.blocksOf look ((s'.get π.root').children.flatMap s'.forest.preorder) <;> rfl
  · intro x hx
    rw [h.preorder_root] at hx
    rcases List.mem_append.1 hx with hx | hx
    · rw [hpre] at hx
      rcases List.mem_cons.1 hx with rfl | hx
      · exact fun hne => absurd (RuleSet.block?_eq_none_iff.1 ha).1 hne
      · rw [(h.get_below hx).2]
        exact hw x (h.get_below hx).1
    · obtain ⟨y, hy, rfl⟩ := List.mem_map.1 hx
      exact h.written_image hs (below hy).1 (below hy).2

end Before

/-- If a root has no block of its own, its text is what it was before, with that of the other root
behind it. -/
theorem css_root {σ₀ σ σ' : Session} (h : π.Mirrors σ.store σ'.store) (left : π.left = σ₀.store)
    (hl : π.lead = "") (hs : π.Led) (ho : π.left.optionsOf π.root = π.right.optionsOf π.root')
    (hw : ∀ x < σ₀.store.next, (σ₀.store.get x).Written) (before : σ₀.Blockless π.root)
    (after : σ.Blockless π.root) :
    σ.css π.root = (σ₀.css π.root).bind fun old => (σ'.css π.root').map (old ++ ·) := by
  have hw' : ∀ x < π.left.next, (π.left.get x).Written := by
    rw [left]
    exact hw
  have hb : π.left.block? σ₀.appearance π.root = .ok none := by
    rw [left]
    exact before
  -- whether there is a block does not depend on what objects look like
  have ha : σ.store.block? σ₀.appearance π.root = .ok none :=
    RuleSet.block?_eq_none_iff.2 (RuleSet.block?_eq_none_iff.1 after)
  have hold : π.left.blocks σ.hostName π.root = π.left.blocks σ₀.hostName π.root :=
    Store.blocks_congr (fun _ _ => rfl) rfl (fun x => h.written_before hw') _ _
  have hblocks := h.blocks_root hs ho hw' hb ha σ.hostName σ'.hostName
  rw [hold, left] at hblocks
  unfold Session.css Store.css
  rw [hblocks]
  cases σ₀.store.blocks σ₀.hostName π.root with
  | error e => rfl
  | ok old =>
    show Except.map String.join (Except.map _ (σ'.store.blocks _ π.root')) =
      Except.map _ (Except.map String.join (σ'.store.blocks _ π.root'))
    cases σ'.store.blocks σ'.hostName π.root' with
    | error e => rfl
    | ok new =>
      show Except.ok (String.join (old ++ new.map (π.lead ++ ·))) =
        .ok (String.join old ++ String.join new)
      rw [String.join_append, hl]
      simp

end Pairing.Mirrors

end RuleTree
