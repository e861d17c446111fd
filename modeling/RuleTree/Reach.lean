/-!
# Reachability

What can be reached along links from given starting points.

* `Linked`: the relation: a starting point, or something that a linked thing links to;
* `LinkedIn`: the same along things of a domain only;
* `Open`: the things that are still to be found: those whose number bears a mark;
* `discover`, `mem_discover_iff`: what is linked along open things;
* `reachable`, `mem_reachable_iff`: everything that is linked.

Things that have links are numbered. Whatever is found loses its mark, so that cycles do no harm and
the number of marks bounds the search.
-/

namespace RuleTree

variable {α : Type}

/-- Being linked: to be a starting point, or to be linked to by something linked. -/
inductive Linked (links : α → List α) (start : List α) : α → Prop
  | start {x : α} (h : x ∈ start) : Linked links start x
  | link {x y : α} (h : Linked links start x) (hy : y ∈ links x) : Linked links start y

/-- Being linked along things of a domain. -/
inductive LinkedIn (links : α → List α) (domain : α → Prop) (start : List α) : α → Prop
  | start {x : α} (hd : domain x) (h : x ∈ start) : LinkedIn links domain start x
  | link {x y : α} (h : LinkedIn links domain start x) (hd : domain y) (hy : y ∈ links x) :
    LinkedIn links domain start y

theorem LinkedIn.linked {links : α → List α} {domain : α → Prop} {start : List α} {x : α}
    (h : LinkedIn links domain start x) : Linked links start x := by
  induction h with
  | start _ h => exact .start h
  | link _ _ hy ih => exact .link ih hy

theorem linkedIn_iff_linked {links : α → List α} {domain : α → Prop} {start : List α}
    (hd : ∀ x, domain x) {x : α} : LinkedIn links domain start x ↔ Linked links start x := by
  refine ⟨LinkedIn.linked, fun h => ?_⟩
  induction h with
  | start h => exact .start (hd _) h
  | link _ hy ih => exact .link ih (hd _) hy

theorem LinkedIn.mono {links : α → List α} {domain : α → Prop} {start start' : List α} {x : α}
    (hs : ∀ y, domain y → y ∈ start → y ∈ start') (h : LinkedIn links domain start x) :
    LinkedIn links domain start' x := by
  induction h with
  | start hd h => exact .start hd (hs _ hd h)
  | link _ hd hy ih => exact .link ih hd hy

/-- Taking a thing out of the domain and starting from what it links to instead finds what is linked
from it, apart from the thing itself. -/
theorem linkedIn_cons_iff {links : α → List α} {domain domain' : α → Prop} {rest : List α} {x : α}
    (hx : domain x) (hd : ∀ y, domain' y ↔ domain y ∧ y ≠ x) {y : α} :
    LinkedIn links domain (x :: rest) y ↔
      y = x ∨ LinkedIn links domain' (links x ++ rest) y := by
  constructor
  · intro h
    induction h with
    | @start y hy h =>
      rcases Classical.em (y = x) with e | e
      · exact .inl e
      · rcases List.mem_cons.1 h with h | h
        · exact absurd h e
        · exact .inr (.start ((hd y).2 ⟨hy, e⟩) (List.mem_append_right _ h))
    | @link z w _ hw hl ih =>
      rcases Classical.em (w = x) with e | e
      · exact .inl e
      · rcases ih with rfl | ih
        · exact .inr (.start ((hd w).2 ⟨hw, e⟩) (List.mem_append_left _ hl))
        · exact .inr (.link ih ((hd w).2 ⟨hw, e⟩) hl)
  · rintro (rfl | h)
    · exact .start hx List.mem_cons_self
    · induction h with
      | @start y hy h =>
        rcases List.mem_append.1 h with h | h
        · exact .link (.start hx List.mem_cons_self) ((hd y).1 hy).1 h
        · exact .start ((hd y).1 hy).1 (List.mem_cons_of_mem _ h)
      | @link z w _ hw hl ih => exact .link ih ((hd w).1 hw).1 hl

/-- A thing that is still to be found: the mark of its number is there. A thing without number is
always open. -/
def Open (index : α → Option Nat) (marks : Array Bool) (x : α) : Prop :=
  ∀ i, index x = some i → marks[i]? = some true

theorem count_setIfInBounds_lt {marks : Array Bool} {i : Nat} (h : marks[i]? = some true) :
    (marks.setIfInBounds i false).count true < marks.count true := by
  obtain ⟨hi, hm⟩ := Array.getElem?_eq_some_iff.1 h
  have hc : 0 < marks.count true := Array.count_pos_iff.2 (hm ▸ Array.getElem_mem hi)
  rw [Array.setIfInBounds, dif_pos hi, Array.count_set, hm]
  simp only [beq_self_eq_true, if_true]
  have hf : (false == true) = false := rfl
  rw [hf]
  simp only [Bool.false_eq_true, if_false]
  omega

theorem open_setIfInBounds_iff {index : α → Option Nat} {marks : Array Bool}
    (inj : ∀ x y i, index x = some i → index y = some i → x = y) {x : α} {i : Nat}
    (hx : index x = some i) (y : α) :
    Open index (marks.setIfInBounds i false) y ↔ Open index marks y ∧ y ≠ x := by
  unfold Open
  constructor
  · intro h
    have hi : ∀ j, index y = some j → j ≠ i := by
      rintro j hj rfl
      have := h j hj
      rw [Array.getElem?_setIfInBounds_self] at this
      split at this <;> simp at this
    refine ⟨fun j hj => ?_, ?_⟩
    · have := h j hj
      rwa [Array.getElem?_setIfInBounds_ne (hi j hj).symm] at this
    · rintro rfl
      exact hi i hx rfl
  · rintro ⟨h, hy⟩ j hj
    have hji : j ≠ i := by
      rintro rfl
      exact hy (inj y x j hj hx)
    rw [Array.getElem?_setIfInBounds_ne hji.symm]
    exact h j hj

/-- What is linked along things that are still to be found. -/
def discover (links : α → List α) (index : α → Option Nat) (marks : Array Bool)
    (pending : List α) : List α :=
  match pending with
  | [] => []
  | x :: rest =>
    match index x with
    | none => x :: discover links index marks rest
    | some i =>
      if marks[i]? = some true then
        x :: discover links index (marks.setIfInBounds i false) (links x ++ rest)
      else discover links index marks rest
termination_by (marks.count true, pending.length)
decreasing_by
  · exact Prod.Lex.right _ (Nat.lt_succ_self _)
  · rename_i h
    exact Prod.Lex.left _ _ (count_setIfInBounds_lt h)
  · exact Prod.Lex.right _ (Nat.lt_succ_self _)

/-- What is discovered is what is linked along open things, if things without number have no links
and no two things have the same number. -/
theorem mem_discover_iff {links : α → List α} {index : α → Option Nat}
    (inj : ∀ x y i, index x = some i → index y = some i → x = y)
    (leaf : ∀ x, index x = none → links x = []) {marks : Array Bool} {pending : List α} {y : α} :
    y ∈ discover links index marks pending ↔ LinkedIn links (Open index marks) pending y := by
  fun_induction discover links index marks pending with
  | case1 marks =>
    constructor
    · intro h
      cases h
    · intro h
      induction h with
      | start _ h => cases h
      | link _ _ _ ih => cases ih
  | case2 marks x rest hx ih =>
    have hopen : Open index marks x := fun i hi => by simp [hx] at hi
    rw [List.mem_cons, ih]
    clear ih
    constructor
    · rintro (rfl | h)
      · exact .start hopen List.mem_cons_self
      · exact h.mono fun _ _ h => List.mem_cons_of_mem _ h
    · intro h
      induction h with
      | start hd h =>
        rcases List.mem_cons.1 h with rfl | h
        · exact .inl rfl
        · exact .inr (.start hd h)
      | link _ hd hy ih =>
        rcases ih with rfl | ih
        · rw [leaf _ hx] at hy
          cases hy
        · exact .inr (.link ih hd hy)
  | case3 marks x rest i hx hm ih =>
    have hopen : Open index marks x := fun j hj => by
      rw [hx] at hj
      cases hj
      exact hm
    rw [List.mem_cons, ih, linkedIn_cons_iff hopen (open_setIfInBounds_iff inj hx)]
  | case4 marks x rest i hx hm ih =>
    rw [ih]
    constructor
    · exact fun h => h.mono fun _ _ h => List.mem_cons_of_mem _ h
    · refine fun h => h.mono fun z hz h => ?_
      rcases List.mem_cons.1 h with rfl | h
      · exact absurd (hz i hx) hm
      · exact h

/-- Everything that is linked, if the things that have links are numbered below a bound. -/
def reachable (links : α → List α) (index : α → Option Nat) (bound : Nat) (start : List α) :
    List α :=
  discover links index (Array.replicate bound true) start

/-- What is reachable is what is linked. -/
theorem mem_reachable_iff {links : α → List α} {index : α → Option Nat} {bound : Nat}
    (inj : ∀ x y i, index x = some i → index y = some i → x = y)
    (leaf : ∀ x, index x = none → links x = [])
    (lt_bound : ∀ x i, index x = some i → i < bound) {start : List α} {y : α} :
    y ∈ reachable links index bound start ↔ Linked links start y := by
  unfold reachable
  rw [mem_discover_iff inj leaf]
  refine linkedIn_iff_linked fun x i hi => ?_
  rw [Array.getElem?_replicate, if_pos (lt_bound x i hi)]

end RuleTree
