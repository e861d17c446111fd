import RuleTree.Proofs.History.Event
import RuleTree.Proofs.Rebuilding.Lead

/-!
# Stores that grow alike

Two stores, in each of which a rule set is filled: in the one it may hold something already, in the
other it is empty. The same text may stand before all selectors of the first one.

* `Store.Changed`: a store in which one rule set has changed, though not in how it was made;
* `Pairing`: the stores at the start, the two rule sets, the roots, and the text before selectors;
* `Pairing.image`: what stands in the first store for a rule set of the second;
* `Pairing.Inner`: the root of the second store, and what was made since;
* `Pairing.before`, `Pairing.Continues`: what the rule set held at the start that stands for one of
  these, and what both hold later on;
* `Pairing.Mirrors`, `Pairing.mirrors_start`: since the start the first store has got the same as
  the second one, in the same order, and neither has changed elsewhere;
* `Pairing.Mirrors.edit`, `Pairing.Mirrors.sprout`: such stores stay so if the same is done to both.
-/

namespace RuleTree

/-! ### Changing one rule set -/

namespace Store

/-- Nothing has changed but one rule set, and that not in how it was made. -/
structure Changed (s : Store) (n : NodeId) (r : RuleSet) (t : Store) : Prop where
  next : t.next = s.next
  options : t.options = s.options
  get : ∀ m, t.get m = if n = m then r else s.get m
  made : (s.get n).MadeAs r

variable {s t : Store} {n : NodeId} {r : RuleSet}

theorem Changed.get_of_ne (h : s.Changed n r t) {m : NodeId} (hm : n ≠ m) : t.get m = s.get m := by
  rw [h.get, if_neg hm]

theorem Changed.madeAs (h : s.Changed n r t) (m : NodeId) : (s.get m).MadeAs (t.get m) := by
  rw [h.get]
  split
  · rename_i e
    exact e ▸ h.made
  · exact .refl _

theorem changed_append (hn : n < s.next) (text : String) :
    s.Changed n { s.get n with text := (s.get n).text ++ text }
      { s with forest := s.forest.append n text } where
  next := next_append ..
  options := rfl
  get m := by
    rw [get_append]
    by_cases e : n = m
    · rw [if_pos ⟨e, hn⟩, if_pos e, e]
    · rw [if_neg fun h => e h.1, if_neg e]
  made := ⟨rfl, rfl, rfl, rfl⟩

theorem changed_define (hn : n < s.next) (name text : String) :
    s.Changed n { s.get n with scope := (s.get n).scope.insert name text }
      { s with forest := s.forest.define n name text } where
  next := next_define ..
  options := rfl
  get m := by
    rw [get_define]
    by_cases e : n = m
    · rw [if_pos ⟨e, hn⟩, if_pos e, e]
    · rw [if_neg fun h => e h.1, if_neg e]
  made := ⟨rfl, rfl, rfl, rfl⟩

theorem changed_clear (hn : n < s.next) :
    s.Changed n { s.get n with text := "", children := [], scope := .empty }
      { s with forest := s.forest.clear n } where
  next := next_clear ..
  options := rfl
  get m := by
    rw [get_clear]
    by_cases e : n = m
    · rw [if_pos ⟨e, hn⟩, if_pos e, e]
    · rw [if_neg fun h => e h.1, if_neg e]
  made := ⟨rfl, rfl, rfl, rfl⟩

theorem changed_attach {c : NodeId} (hc : (s.get c).parent = some n) :
    s.Changed n { s.get n with children := (s.get n).children ++ [c] } (s.attach c) where
  next := next_attach ..
  options := rfl
  get m := by
    rw [get_attach, hc]
    by_cases e : n = m
    · rw [if_pos (congrArg some e), if_pos e, e]
    · rw [if_neg fun h => e (Option.some.inj h), if_neg e]
  made := ⟨rfl, rfl, rfl, rfl⟩

end Store

/-! ### Two stores -/

/-- Two stores at the start, the rule set in each that is going to be filled, and the text that
stands before the selectors of the first one. -/
@[ext] structure Pairing where
  left : Store
  right : Store
  root : NodeId
  root' : NodeId
  root_lt : root < left.next
  root'_lt : root' < right.next
  lead : String
  leading : Leading lead

namespace Pairing

variable (π : Pairing)

/-- What stands in the first store for a rule set of the second: the one root for the other, and
what was made in the same place for what was made since the start. -/
def image (n : NodeId) : NodeId := if n = π.root' then π.root else n - π.right.next + π.left.next

/-- The root of the second store, or made in it since the start. -/
def Inner (s' : Store) (n : NodeId) : Prop := n = π.root' ∨ π.right.next ≤ n ∧ n < s'.next

/-- What there was at the start of the rule set that stands for one of the second store. -/
def before (n : NodeId) : RuleSet := if n = π.root' then π.left.get π.root else default

variable {π} {s s' : Store} {n m : NodeId}

@[simp] theorem image_root : π.image π.root' = π.root := if_pos rfl

theorem image_of_le (h : π.right.next ≤ n) : π.image n = n - π.right.next + π.left.next :=
  if_neg fun (he : n = π.root') => Nat.not_lt.2 h (he ▸ π.root'_lt)

theorem le_image (h : π.right.next ≤ n) : π.left.next ≤ π.image n := by
  rw [image_of_le h]
  exact Nat.le_add_left _ _

theorem image_ne_root (h : π.right.next ≤ n) : π.image n ≠ π.root :=
  fun he => Nat.not_lt.2 (le_image h) (he ▸ π.root_lt)

theorem before_root : π.before π.root' = π.left.get π.root := if_pos rfl

theorem before_of_le (h : π.right.next ≤ n) : π.before n = default :=
  if_neg fun (he : n = π.root') => Nat.not_lt.2 h (he ▸ π.root'_lt)

theorem Inner.root : π.Inner s' π.root' := .inl rfl

theorem Inner.of_le (h : π.Inner s' n) {t : Store} (ht : s'.next ≤ t.next) : π.Inner t n :=
  h.imp_right fun h => ⟨h.1, Nat.lt_of_lt_of_le h.2 ht⟩

/-- No two rule sets are stood for by the same one. -/
theorem image_inj (hn : π.Inner s' n) (hm : π.Inner s' m) (h : π.image n = π.image m) : n = m := by
  rcases hn with rfl | ⟨hn, -⟩
  · rcases hm with rfl | ⟨hm, -⟩
    · rfl
    · exact absurd (h.symm.trans image_root) (image_ne_root hm)
  · rcases hm with rfl | ⟨hm, -⟩
    · exact absurd (h.trans image_root) (image_ne_root hn)
    · rw [image_of_le hn, image_of_le hm] at h
      have h := Nat.add_right_cancel h
      exact Nat.sub_add_cancel hn ▸ Nat.sub_add_cancel hm ▸ congrArg (· + π.right.next) h

/-- Being made alike under rule sets one of which stands for the other: with selectors that are the
same up to numbers, but for the text before the first one, and refer to no other rule sets than
those of the roots. If the selectors of the roots are texts, these are, too. -/
structure Kin (π : Pairing) (s' : Store) (x x' : RuleSet) : Prop where
  parent : ∃ p, π.Inner s' p ∧ x'.parent = some p ∧ x.parent = some (π.image p)
  host : x.host = x'.host
  options : x.options = (π.left.get π.root).options
  options' : x'.options = (π.right.get π.root').options
  selector : x.selector.bare = (x'.selector.led π.lead).bare
  text : (π.right.get π.root').selector.isText = true → x'.selector.isText = true
  refers : ∀ m, .node m ∈ x'.selector.identities →
    .node m ∈ (π.right.get π.root').selector.identities

/-- Rule sets that are kin stay so, however many rule sets are made. -/
theorem Kin.of_le {x x' : RuleSet} (h : π.Kin s' x x') {t : Store} (ht : s'.next ≤ t.next) :
    π.Kin t x x' := by
  obtain ⟨p, hp, h₁, h₂⟩ := h.parent
  exact { h with parent := ⟨p, hp.of_le ht, h₁, h₂⟩ }

theorem Kin.of_madeAs {x x' y y' : RuleSet} (h : π.Kin s' x x') (left : x.MadeAs y)
    (right : x'.MadeAs y') : π.Kin s' y y' := by
  obtain ⟨p, hp, h₁, h₂⟩ := h.parent
  exact {
    parent := ⟨p, hp, right.parent.trans h₁, left.parent.trans h₂⟩
    host := by rw [left.host, right.host, h.host]
    options := left.options.trans h.options
    options' := right.options.trans h.options'
    selector := by rw [left.selector, right.selector, h.selector]
    text := by
      rw [right.selector]
      exact h.text
    refers := by
      rw [right.selector]
      exact h.refers }

/-- A rule set holds what there was before and then what another one holds, which was made since the
start; the other one holds text only if its selector is a text. -/
structure Continues (π : Pairing) (before x x' : RuleSet) : Prop where
  text : x.text = before.text ++ x'.text
  scope : x.scope = before.scope.insertAll x'.scope.entries
  children : x.children = before.children ++ x'.children.map π.image
  inner : ∀ c ∈ x'.children, π.right.next ≤ c
  written : x'.text ≠ "" → ∃ t, x'.selector = .text t

/-- The selectors of the roots are the same up to numbers, but for the text before the first one. -/
def Led (π : Pairing) : Prop :=
  (π.left.get π.root).selector.bare = ((π.right.get π.root').selector.led π.lead).bare

/-- Since the start the first store has got the same as the second one, and neither has changed
elsewhere. -/
structure Mirrors (π : Pairing) (s s' : Store) : Prop where
  next : s.next + π.right.next = s'.next + π.left.next
  grown : π.right.next ≤ s'.next
  options : s.options = π.left.options
  options' : s'.options = π.right.options
  older : ∀ n < π.left.next, n ≠ π.root → s.get n = π.left.get n
  older' : ∀ n < π.right.next, n ≠ π.root' → s'.get n = π.right.get n
  root : (π.left.get π.root).MadeAs (s.get π.root)
  root' : (π.right.get π.root').MadeAs (s'.get π.root')
  text : ∀ n, π.Inner s' n → (s.get (π.image n)).text = (π.before n).text ++ (s'.get n).text
  scope : ∀ n, π.Inner s' n →
    (s.get (π.image n)).scope = (π.before n).scope.insertAll (s'.get n).scope.entries
  children : ∀ n, π.Inner s' n → (s.get (π.image n)).children =
    (π.before n).children ++ (s'.get n).children.map π.image
  inner : ∀ n, π.Inner s' n → ∀ c ∈ (s'.get n).children, π.right.next ≤ c
  made : ∀ n, π.right.next ≤ n → n < s'.next → π.Kin s' (s.get (π.image n)) (s'.get n)
  /-- there is text only where the selector is one -/
  written : ∀ n, π.Inner s' n → (s'.get n).text ≠ "" → ∃ t, (s'.get n).selector = .text t

/-- At the start they mirror each other, if the root of the second store is empty. -/
theorem mirrors_start (ht : (π.right.get π.root').text = "")
    (hc : (π.right.get π.root').children = []) (hs : (π.right.get π.root').scope = .empty) :
    π.Mirrors π.left π.right := by
  have only {n : NodeId} (hn : π.Inner π.right n) : n = π.root' :=
    hn.elim id fun h => absurd h.2 (Nat.not_lt.2 h.1)
  exact {
    next := Nat.add_comm _ _
    grown := Nat.le_refl _
    options := rfl
    options' := rfl
    older := fun _ _ _ => rfl
    older' := fun _ _ _ => rfl
    root := .refl _
    root' := .refl _
    text := fun n hn => by
      cases only hn
      rw [ht, image_root, before_root, String.append_empty]
    scope := fun n hn => by
      cases only hn
      rw [hs, image_root, before_root]
      rfl
    children := fun n hn => by
      cases only hn
      rw [hc, image_root, before_root, List.map_nil, List.append_nil]
    inner := fun n hn c hc' => by
      cases only hn
      rw [hc] at hc'
      cases hc'
    made := fun n h₁ h₂ => absurd h₂ (Nat.not_lt.2 h₁)
    written := fun n hn hne => by
      cases only hn
      exact absurd ht hne }

namespace Mirrors

variable (h : π.Mirrors s s')
include h

theorem next_le : π.left.next ≤ s.next := by
  have key (a b c d : Nat) : a + b = c + d → b ≤ c → d ≤ a := by omega
  exact key _ _ _ _ h.next h.grown

theorem image_lt (hn : π.Inner s' n) : π.image n < s.next := by
  rcases hn with rfl | ⟨h₁, h₂⟩
  · rw [image_root]
    exact Nat.lt_of_lt_of_le π.root_lt h.next_le
  · have key (a b c d n : Nat) : a + b = c + d → b ≤ n → n < c → n - b + d < a := by omega
    rw [image_of_le h₁]
    exact key _ _ _ _ _ h.next h₁ h₂

theorem lt_next (hn : π.Inner s' n) : n < s'.next :=
  hn.elim (fun e => e ▸ Nat.lt_of_lt_of_le π.root'_lt h.grown) And.right

/-- The next rule set of the first store will stand for that of the second. -/
theorem image_next : π.image s'.next = s.next := by
  have key (a b c d : Nat) : a + b = c + d → b ≤ c → c - b + d = a := by omega
  rw [image_of_le h.grown]
  exact key _ _ _ _ h.next h.grown

/-- The children of a rule set, if they were made since the start. -/
theorem inner_child (hn : π.Inner s' n) {c : NodeId} (hc : c ∈ (s'.get n).children) :
    π.Inner s' c := .inr ⟨h.inner n hn c hc, Forest.lt_size_of_mem_children hc⟩

/-- The selectors of a rule set and of its image. -/
theorem selector (hs : π.Led) (hn : π.Inner s' n) :
    (s.get (π.image n)).selector.bare = ((s'.get n).selector.led π.lead).bare := by
  rcases hn with rfl | ⟨h₁, h₂⟩
  · rw [image_root, h.root.selector, h.root'.selector]
    exact hs
  · exact (h.made n h₁ h₂).selector

theorem refers (hn : π.Inner s' n) : ∀ m, .node m ∈ (s'.get n).selector.identities →
    .node m ∈ (π.right.get π.root').selector.identities := by
  rcases hn with rfl | ⟨h₁, h₂⟩
  · rw [h.root'.selector]
    exact fun m hm => hm
  · exact (h.made n h₁ h₂).refers

/-- If the selector of the root is a text, then all selectors are. -/
theorem isText (hn : π.Inner s' n) (ht : (π.right.get π.root').selector.isText = true) :
    (s'.get n).selector.isText = true := by
  rcases hn with rfl | ⟨h₁, h₂⟩
  · rw [h.root'.selector]
    exact ht
  · exact (h.made n h₁ h₂).text ht

theorem optionsId (hn : π.Inner s' n) :
    (s.get (π.image n)).options = (π.left.get π.root).options ∧
      (s'.get n).options = (π.right.get π.root').options := by
  rcases hn with rfl | ⟨h₁, h₂⟩
  · rw [image_root]
    exact ⟨h.root.options, h.root'.options⟩
  · exact ⟨(h.made n h₁ h₂).options, (h.made n h₁ h₂).options'⟩

/-- All of these share the options of the roots. -/
theorem optionsOf (hn : π.Inner s' n) : s.optionsOf (π.image n) = π.left.optionsOf π.root ∧
    s'.optionsOf n = π.right.optionsOf π.root' := by
  unfold Store.optionsOf
  rw [h.options, h.options', (h.optionsId hn).1, (h.optionsId hn).2]
  exact ⟨rfl, rfl⟩

/-- What a rule set and its image hold. -/
theorem continues (hn : π.Inner s' n) :
    π.Continues (π.before n) (s.get (π.image n)) (s'.get n) where
  text := h.text n hn
  scope := h.scope n hn
  children := h.children n hn
  inner := h.inner n hn
  written := h.written n hn

/-- If a rule set and its image are changed alike, and nothing else is, the stores still mirror each
other. -/
theorem edit (hn : π.Inner s' n) {t t' : Store} {x y : RuleSet} (left : s.Changed (π.image n) x t)
    (right : s'.Changed n y t') (continues : π.Continues (π.before n) x y) : π.Mirrors t t' := by
  have inn {m : NodeId} : π.Inner t' m ↔ π.Inner s' m := by
    unfold Inner
    rw [right.next]
  -- at an inner rule set either both sides have changed or neither
  have all {m : NodeId} (hm : π.Inner t' m) :
      π.Continues (π.before m) (t.get (π.image m)) (t'.get m) := by
    by_cases e : n = m
    · subst e
      rw [left.get, right.get, if_pos rfl, if_pos rfl]
      exact continues
    · rw [left.get_of_ne fun he => e (image_inj hn (inn.1 hm) he), right.get_of_ne e]
      exact h.continues (inn.1 hm)
  exact {
    next := by rw [left.next, right.next, h.next]
    grown := right.next ▸ h.grown
    options := left.options.trans h.options
    options' := right.options.trans h.options'
    older := fun m hm hr => by
      rw [left.get_of_ne, h.older m hm hr]
      rintro rfl
      rcases hn with rfl | ⟨hn, -⟩
      · exact hr image_root
      · exact Nat.not_lt.2 (le_image hn) hm
    older' := fun m hm hr => by
      rw [right.get_of_ne, h.older' m hm hr]
      rintro rfl
      rcases hn with rfl | ⟨hn, -⟩
      · exact hr rfl
      · exact Nat.not_lt.2 hn hm
    root := h.root.trans (left.madeAs _)
    root' := h.root'.trans (right.madeAs _)
    text := fun m hm => (all hm).text
    scope := fun m hm => (all hm).scope
    children := fun m hm => (all hm).children
    inner := fun m hm => (all hm).inner
    made := fun m hm hlt =>
      ((h.made m hm (right.next ▸ hlt)).of_madeAs (left.madeAs _) (right.madeAs _)).of_le
        (Nat.le_of_eq right.next.symm)
    written := fun m hm => (all hm).written }

/-- The same text is written on a rule set and its image. -/
theorem append (hn : π.Inner s' n) {selector : String} (hs : (s'.get n).selector = .text selector)
    (t : String) : π.Mirrors { s with forest := s.forest.append (π.image n) t }
      { s' with forest := s'.forest.append n t } :=
  h.edit hn (Store.changed_append (h.image_lt hn) t) (Store.changed_append (h.lt_next hn) t)
    { h.continues hn with
      text := by
        show (s.get (π.image n)).text ++ t = (π.before n).text ++ ((s'.get n).text ++ t)
        rw [h.text n hn, String.append_assoc]
      written := fun _ => ⟨selector, hs⟩ }

/-- The same property is defined on a rule set and its image. -/
theorem define (hn : π.Inner s' n) (name t : String) :
    π.Mirrors { s with forest := s.forest.define (π.image n) name t }
      { s' with forest := s'.forest.define n name t } :=
  h.edit hn (Store.changed_define (h.image_lt hn) name t)
    (Store.changed_define (h.lt_next hn) name t)
    { h.continues hn with
      scope := by
        show (s.get (π.image n)).scope.insert name t = _
        rw [h.scope n hn]
        exact (Table.insertAll_insert _ _ name t).symm }

/-- A rule set and its image are emptied, if there was nothing at the start. -/
theorem clear (hn : π.Inner s' n) (ht : (π.before n).text = "") (hc : (π.before n).children = [])
    (hs : (π.before n).scope = .empty) :
    π.Mirrors { s with forest := s.forest.clear (π.image n) }
      { s' with forest := s'.forest.clear n } :=
  h.edit hn (Store.changed_clear (h.image_lt hn)) (Store.changed_clear (h.lt_next hn))
    { text := by
        rw [ht]
        rfl
      scope := by
        rw [hs]
        rfl
      children := by
        rw [hc]
        rfl
      inner := nofun
      written := fun hne => absurd rfl hne }

/-- A rule set that was made since the start is attached, and so is its image. -/
theorem attach {c : NodeId} (hc : π.right.next ≤ c) (hlt : c < s'.next) :
    π.Mirrors (s.attach (π.image c)) (s'.attach c) := by
  obtain ⟨p, hp, h₁, h₂⟩ := (h.made c hc hlt).parent
  refine h.edit hp (Store.changed_attach h₂) (Store.changed_attach h₁)
    { h.continues hp with
      children := ?_
      inner := fun d hd => ?_ }
  · show (s.get (π.image p)).children ++ [π.image c] = _
    rw [h.children p hp, List.map_append, List.append_assoc]
    rfl
  · rcases List.mem_append.1 hd with hd | hd
    · exact h.inner p hp d hd
    · exact List.mem_singleton.1 hd ▸ hc

/-- A rule set is made under another one, and one of the same kind under its image. -/
theorem sprout (hn : π.Inner s' n) {d d' : Datum} (hd : d.bare = (d'.led π.lead).bare)
    (ht : (π.right.get π.root').selector.isText = true → d'.isText = true)
    (hr : ∀ m, .node m ∈ d'.identities → .node m ∈ (π.right.get π.root').selector.identities) :
    π.Mirrors (s.sprout (π.image n) d none) (s'.sprout n d' none) := by
  have inn {m : NodeId} (hm : π.Inner (s'.sprout n d' none) m) : m = s'.next ∨ π.Inner s' m := by
    rcases hm with rfl | ⟨h₁, h₂⟩
    · exact .inr .root
    · rw [Store.next_sprout] at h₂
      rcases Nat.lt_succ_iff_lt_or_eq.1 h₂ with h₂ | rfl
      · exact .inr (.inr ⟨h₁, h₂⟩)
      · exact .inl rfl
  have old {m : NodeId} (hm : m < s.next) :
      (s.sprout (π.image n) d none).get m = s.get m := by
    rw [Store.get_sprout, if_neg (Nat.ne_of_lt hm)]
  have old' {m : NodeId} (hm : m < s'.next) : (s'.sprout n d' none).get m = s'.get m := by
    rw [Store.get_sprout, if_neg (Nat.ne_of_lt hm)]
  have hnew : (s.sprout (π.image n) d none).get (π.image s'.next) =
      .fresh d (some (π.image n)) none (s.get (π.image n)).options := by
    rw [h.image_next, Store.get_sprout, if_pos rfl, Option.filter_some, if_pos]
    simpa using h.image_lt hn
  have hnew' : (s'.sprout n d' none).get s'.next = .fresh d' (some n) none (s'.get n).options := by
    rw [Store.get_sprout, if_pos rfl, Option.filter_some, if_pos]
    simpa using h.lt_next hn
  -- the two new rule sets are empty, and what was there has not changed
  have all {m : NodeId} (hm : π.Inner (s'.sprout n d' none) m) : π.Continues (π.before m)
      ((s.sprout (π.image n) d none).get (π.image m)) ((s'.sprout n d' none).get m) := by
    rcases inn hm with rfl | hm
    · rw [hnew, hnew', before_of_le h.grown]
      exact ⟨rfl, rfl, rfl, nofun, fun hne => absurd rfl hne⟩
    · rw [old (h.image_lt hm), old' (h.lt_next hm)]
      exact h.continues hm
  exact {
    next := by
      rw [Store.next_sprout, Store.next_sprout, Nat.add_right_comm, h.next, Nat.add_right_comm]
    grown := Nat.le_trans h.grown (by simp)
    options := h.options
    options' := h.options'
    older := fun m hm hr => by rw [old (Nat.lt_of_lt_of_le hm h.next_le), h.older m hm hr]
    older' := fun m hm hr => by rw [old' (Nat.lt_of_lt_of_le hm h.grown), h.older' m hm hr]
    root := by
      rw [old (Nat.lt_of_lt_of_le π.root_lt h.next_le)]
      exact h.root
    root' := by
      rw [old' (Nat.lt_of_lt_of_le π.root'_lt h.grown)]
      exact h.root'
    text := fun m hm => (all hm).text
    scope := fun m hm => (all hm).scope
    children := fun m hm => (all hm).children
    inner := fun m hm => (all hm).inner
    made := fun m hm hlt => by
      rcases inn (.inr ⟨hm, hlt⟩) with rfl | hin
      · have ho := h.optionsId hn
        rw [hnew, hnew']
        exact {
          parent := ⟨n, hn.of_le (by simp), rfl, rfl⟩
          host := rfl
          options := ho.1
          options' := ho.2
          selector := hd
          text := ht
          refers := hr }
      · rw [old (h.image_lt hin), old' (h.lt_next hin)]
        exact (h.made m hm (h.lt_next hin)).of_le (by simp)
    written := fun m hm => (all hm).written }

end Mirrors

end Pairing

end RuleTree
