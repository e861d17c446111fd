import RuleTree.Proofs.Lifetime.Parents
import RuleTree.Proofs.Rebuilding.Contained

/-!
# Sessions that have grown

* `Session.Grows`: a later session, in the middle of at least the same calls, in which the rule sets
  that were there have changed in nothing but that they may list more children;
* `Session.Grows.alive`: what was alive is alive then;
* `Session.AtHand`: a generator that can be passed to a statement;
* `Session.Passed`: being alive, not made yet, or a generator that is passed; `Session.closed_passed`:
  such a property is closed;
* `Session.Grows.alive_eq`, `Session.Grows.sees_eq`: so nothing comes alive again that was dead, and
  the same custom properties are visible from the rule sets that were there.
-/

namespace RuleTree

namespace Session

variable {σ σ₁ σ₂ : Session} {n p : NodeId} {i : Identity}

/-- A later session, in the middle of at least the same calls, in which the rule sets that were there
have changed in nothing but that they may list more children. -/
structure Grows (σ σ₁ : Session) : Prop where
  extend : σ.Extends σ₁
  calls : σ.calls ⊆ σ₁.calls
  next_le : σ.store.next ≤ σ₁.store.next
  options : σ₁.store.options = σ.store.options
  older : ∀ n < σ.store.next, ∃ added,
    σ₁.store.get n = { σ.store.get n with children := (σ.store.get n).children ++ added }

namespace Grows

theorem trans (h : σ.Grows σ₁) (h' : σ₁.Grows σ₂) : σ.Grows σ₂ where
  extend := h.extend.trans h'.extend
  calls := List.Subset.trans h.calls h'.calls
  next_le := Nat.le_trans h.next_le h'.next_le
  options := h'.options.trans h.options
  older n hn := by
    obtain ⟨added, ha⟩ := h.older n hn
    obtain ⟨added', ha'⟩ := h'.older n (Nat.lt_of_lt_of_le hn h.next_le)
    refine ⟨added ++ added', ?_⟩
    rw [ha', ha, List.append_assoc]

theorem openEntries_subset (h : σ.Grows σ₁) : σ.openEntries ⊆ σ₁.openEntries := by
  obtain ⟨hr, hn⟩ := h.extend.registries
  have hopen : σ.openRegistries ⊆ σ₁.openRegistries := by
    intro id hid
    unfold openRegistries at hid ⊢
    rw [hn]
    rcases List.mem_append.1 hid with hid | hid
    · exact List.mem_append_left _ hid
    · obtain ⟨c, hc, hid⟩ := List.mem_filterMap.1 hid
      exact List.mem_append_right _ (List.mem_filterMap.2 ⟨c, h.calls hc, hid⟩)
  intro e he
  obtain ⟨id, hid, he⟩ := List.mem_flatMap.1 he
  exact List.mem_flatMap.2 ⟨id, hopen hid, hr ▸ he⟩

theorem heldWith (h : σ.Grows σ₁) {kept : List Entry} (hi : σ.HeldWith kept i) :
    σ₁.HeldWith kept i := by
  obtain ⟨⟨_, _, _, _, _, _, -, rfl⟩, hcalls, hle, ho, hold⟩ := h
  -- beyond the rule sets that were there, there is nothing to be held
  have made {p : NodeId} (hp : σ.store.get p ≠ default) : p < σ.store.next :=
    Nat.lt_of_not_le fun hle => hp (Store.get_of_next_le hle)
  induction hi with
  | permanent hi => exact .permanent hi
  | generator name => exact .generator name
  | handle hn => exact .handle hn
  | saved hd hi => exact .saved hd hi
  | hostName hid => exact .hostName hid
  | call hc hi => exact .call (hcalls hc) hi
  | iteration ht hi => exact .iteration ht hi
  | sheet he => exact .sheet he
  | @child p c _ hc ih =>
    obtain ⟨added, ha⟩ := hold p (made fun hd => by rw [hd] at hc; cases hc)
    refine .child ih ?_
    rw [ha]
    exact List.mem_append_left _ hc
  | @part p i _ hi ih =>
    obtain ⟨added, ha⟩ := hold p (made fun hd => by rw [hd] at hi; cases hi)
    refine .part ih ?_
    rw [ha]
    exact hi
  | @option p i _ hn hi ih =>
    obtain ⟨added, ha⟩ := hold p hn
    refine .option ih (Nat.lt_of_lt_of_le hn hle) ?_
    unfold Store.optionsOf
    rw [ho, ha]
    exact hi
  | key _ hk hi ih => exact .key ih hk hi

/-- What was alive is alive. -/
theorem alive (h : σ.Grows σ₁) (hi : σ.alive i = true) : σ₁.alive i = true := by
  obtain ⟨kept, hsub, hhosts, hi⟩ := alive_iff_held.1 hi
  exact alive_iff_held.2 ⟨kept, List.Subset.trans hsub h.openEntries_subset,
    fun e he => h.heldWith (hhosts e he), h.heldWith hi⟩

end Grows

/-! ### What is passed -/

/-- Being a generator that can be passed to a statement: one that is alive, or was written in place
just now, so that no style sheet is kept for it. -/
structure AtHand (σ : Session) (g : Generator) : Prop where
  knows : σ.Knows g
  held : σ.alive (.generator g) = true ∨ ∀ e ∈ σ.openEntries, e.host ≠ .generator g

theorem atHand_named (σ : Session) (name : String) : σ.AtHand (.named name) where
  knows := trivial
  held := .inl (has_livingWith_iff.2 (.inl ⟨name, rfl⟩))

/-- Being alive, or not made yet, or one of some generators. -/
def Passed (σ : Session) (generators : List Generator) (i : Identity) : Prop :=
  (σ.alive i = true ∨ ¬ σ.Made i) ∨ ∃ g ∈ generators, i = .generator g

/-- Nothing else can come to be referred to if such generators are passed to statements. -/
theorem closed_passed (hm : ∀ e ∈ σ.openEntries, σ.Made e.host) {generators : List Generator}
    (hg : ∀ g ∈ generators, σ.AtHand g) : σ.Closed (σ.Passed generators) := by
  have h : σ.Closed fun i => σ.alive i = true ∨ ¬ σ.Made i := .living hm
  refine ⟨fun i hi => .inl (h.alive i hi), fun i hi => .inl (h.ahead i hi), fun i hi j hj => ?_,
    fun e he hi => ?_⟩
  · rcases hi with hi | ⟨g, -, rfl⟩
    · exact .inl (h.links i hi j hj)
    · cases hj
  · rcases hi with hi | ⟨g, hmem, hhost⟩
    · exact .inl (h.sheets e he hi)
    · rcases (hg g hmem).held with ha | hnone
      · exact .inl (h.sheets e he (.inl (hhost ▸ ha)))
      · exact absurd hhost (hnone e he)

/-- Of the rule sets that were there, it is those that are alive. -/
theorem alive_of_passed {generators : List Generator} (h : σ.Passed generators (.node n))
    (hn : n < σ.store.next) : σ.alive (.node n) = true := by
  rcases h with (h | h) | ⟨g, -, h⟩
  · exact h
  · exact absurd hn h
  · cases h

namespace Grows

/-- No rule set has come alive again that was dead. -/
theorem alive_eq (h : σ.Grows σ₁) {generators : List Generator}
    (hc : σ₁.Closed (σ.Passed generators)) (hn : n < σ.store.next) :
    σ₁.alive (.node n) = σ.alive (.node n) := by
  rw [Bool.eq_iff_iff]
  exact ⟨fun ha => alive_of_passed (hc.alive _ ha) hn, h.alive⟩

/-- The same custom properties are visible from rule sets that were there. -/
theorem sees_eq (h : σ.Grows σ₁) {generators : List Generator}
    (hc : σ₁.Closed (σ.Passed generators)) (hn : n < σ.store.next) (name : String) :
    σ₁.sees n name = σ.sees n name := by
  induction n using Nat.strongRecOn with
  | ind n ih =>
    obtain ⟨added, ha⟩ := h.older n hn
    rw [Session.sees_eq σ₁, Session.sees_eq σ, ha]
    refine congrArg ((σ.store.get n).scope.contains name || ·) ?_
    cases hp : (σ.store.get n).parent with
    | none =>
      have hroot (σ : Session) (hp : (σ.store.get n).parent = none) : σ.parent? n = none := by
        unfold parent?
        rw [hp]
        rfl
      rw [seesAbove_of_root (hroot σ hp), seesAbove_of_root (hroot σ₁ (by rw [ha, hp]))]
    | some p =>
      have hlt : p < n := Forest.lt_of_parent hp
      have hparent : σ₁.parent? n = σ.parent? n := by
        unfold parent?
        rw [ha, hp, Option.filter_some, Option.filter_some, h.alive_eq hc (Nat.lt_trans hlt hn)]
      cases hq : σ.parent? n with
      | none => rw [seesAbove_of_root hq, seesAbove_of_root (hparent.trans hq)]
      | some q =>
        cases hp.symm.trans (parent_of_parent? hq)
        rw [seesAbove_of_parent hq, seesAbove_of_parent (hparent.trans hq)]
        exact ih p hlt (Nat.lt_trans hlt hn)

/-- From above a rule set that was made since, the same is visible as from its parent before, if
that one is alive. -/
theorem seesAbove_eq (h : σ.Grows σ₁) {generators : List Generator}
    (hc : σ₁.Closed (σ.Passed generators)) (hp : (σ₁.store.get n).parent = some p)
    (hlt : p < σ.store.next) (ha : σ.alive (.node p) = true) (name : String) :
    σ₁.seesAbove n name = σ.sees p name := by
  have hparent : σ₁.parent? n = some p := by
    unfold parent?
    rw [hp, Option.filter_some, if_pos (h.alive ha)]
  rw [seesAbove_of_parent hparent, h.sees_eq hc hlt]

end Grows

end Session

end RuleTree
