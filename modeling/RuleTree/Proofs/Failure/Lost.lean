import RuleTree.Proofs.Blocks.Sources
import RuleTree.Proofs.Calls.Amends
import RuleTree.Proofs.Failure.Unwinding
import RuleTree.Proofs.History.Lineage

/-!
# What becomes of rule sets whose generators fail

* `Store.Lost`: being listed by nothing and not waiting to be listed;
* `Store.Lost.move`, `Machine.lost_run`: what is lost stays lost;
* `Store.Lost.of_new`: what a step makes is lost unless it waits to be listed;
* `Session.FillsLost`, `Machine.fillsLost`: calls that fill a rule set for the first time, but not
  one that is to be listed, fill one that is lost;
* `Store.Owned.lost_of_popped`: what calls were filling is lost as soon as they are given up;
* `Session.Unseen`: being shown by no tree but those in its own;
* `Machine.failure_hides`: an error passes unchanged through all calls up to the first attempt and
  changes nothing on its way, and what these calls were filling is never seen again.

A lost rule set may well be alive, be held by a handle, and be filled, selected on and serialized.
-/

namespace RuleTree

/-! ### Lost rule sets -/

/-- Being listed by no rule set, and not waiting to be listed. -/
structure Store.Lost (s : Store) (pending : List NodeId) (n : NodeId) : Prop where
  there : n < s.next
  unlisted : ∀ p, n ∉ (s.get p).children
  idle : n ∉ pending

namespace Store

variable {s t : Store} {h events : List Event} {pending pending' : List NodeId} {n : NodeId}

/-- What is lost stays lost. -/
theorem Lost.move (hl : s.Lost pending n) (ho : s.Owned h pending)
    (hm : Move s pending events t pending') : t.Lost pending' n := by
  have hn : n < t.next := Nat.lt_of_lt_of_le hl.there hm.trail.next_le
  cases hm with
  | quiet trail quiet sub =>
    refine ⟨hn, fun p hp => ?_, fun h => hl.idle (sub.subset h)⟩
    exact hl.unlisted p ((trail.children_sublist quiet p).subset hp)
  | enter trail quiet made =>
    refine ⟨hn, fun p hp => ?_, fun hc => ?_⟩
    · exact hl.unlisted p ((trail.children_sublist quiet p).subset hp)
    · rcases List.mem_cons.1 hc with rfl | hc
      -- what becomes pending is newer than what is lost
      · obtain ⟨p, selector, f, he⟩ := made
        exact Nat.not_lt.2 (ho.recorded.next_le_of_made trail he rfl) hl.there
      · exact hl.idle hc
  | attach parent =>
    rename_i c p
    have hc : n ≠ c := fun h => hl.idle (h ▸ List.mem_cons_self)
    refine ⟨hn, fun q hq => ?_, fun h => hl.idle (List.mem_cons_of_mem _ h)⟩
    rw [Store.get_attach] at hq
    split at hq
    · rcases List.mem_append.1 hq with hq | hq
      · exact hl.unlisted q hq
      · exact hc (List.mem_singleton.1 hq)
    · exact hl.unlisted q hq

/-- A rule set that a step makes is lost unless it waits to be listed. -/
theorem Lost.of_new (hm : Move s pending events t pending') (hnew : s.next ≤ n) (hn : n < t.next)
    (hp : n ∉ pending') : t.Lost pending' n := by
  have old {p : NodeId} : n ∉ (s.get p).children := fun h =>
    Nat.not_lt.2 hnew (Forest.lt_size_of_mem_children h)
  cases hm with
  | quiet trail quiet =>
    exact ⟨hn, fun p h => old ((trail.children_sublist quiet p).subset h), hp⟩
  | enter trail quiet =>
    exact ⟨hn, fun p h => old ((trail.children_sublist quiet p).subset h), hp⟩
  | attach =>
    rw [next_attach] at hn
    exact absurd hn (Nat.not_lt.2 hnew)

end Store

/-! ### What calls fill -/

/-- Filling nothing for the first time but what is to be listed or is lost. -/
def Session.FillsLost (σ : Session) : Prop :=
  ∀ c ∈ σ.calls, ∀ n, c.purpose.made? = some n → c.purpose.pending? = none →
    σ.store.Lost σ.pending n

/-- What fills a rule set that is to be listed fills it for the first time. -/
theorem Purpose.made?_of_pending? {purpose : Purpose} {n : NodeId} (h : purpose.pending? = some n) :
    purpose.made? = some n := by
  cases purpose with
  | select child fragment className => exact h
  | _ => cases h

namespace Machine

/-- A call that a step begins fills what the step has made, and that is lost unless it is to be
listed. -/
theorem lost_of_entered {m : Machine} {h : List Event} {c : Call} {rest : List Call} {n : NodeId}
    (ho : m.session.store.Owned h m.session.pending) (calls : m.step.session.calls = c :: rest)
    (hrest : (pendingOf rest).Sublist m.session.pending) (hp : c.purpose.pending? = none)
    (hn : m.session.store.next ≤ n ∧ n < m.step.session.store.next) :
    m.step.session.store.Lost m.step.session.pending n := by
  have hsub : m.step.session.pending.Sublist m.session.pending := by
    rw [Session.pending, calls, pendingOf_cons, hp]
    exact hrest
  refine .of_new m.move_step hn.1 hn.2 fun hm => ?_
  exact Nat.not_lt.2 hn.1 (ho.of_made (ho.made n (hsub.subset hm))).1

theorem fillsLost_step {m : Machine} {h : List Event}
    (ho : m.session.store.Owned h m.session.pending) (hl : m.session.FillsLost) :
    m.step.session.FillsLost := by
  have old {c : Call} {n : NodeId} (hc : c.purpose ∈ m.session.calls.map Call.purpose)
      (hn : c.purpose.made? = some n) (hp : c.purpose.pending? = none) :
      m.step.session.store.Lost m.step.session.pending n := by
    obtain ⟨c', hc', he⟩ := List.mem_map.1 hc
    exact (hl c' hc' n (he ▸ hn) (he ▸ hp)).move ho m.move_step
  intro c hc n hn hp
  cases m.callCases with
  | same advanced => exact old (advanced.purposes ▸ List.mem_map_of_mem hc) hn hp
  | fail call below e calls popped =>
    rw [popped] at hc
    exact old (calls ▸ List.mem_map_of_mem (List.mem_cons_of_mem _ hc)) hn hp
  | ended call below σ' r calls done session =>
    rw [session] at hc
    exact old (calls ▸ List.mem_map_of_mem (List.mem_cons_of_mem _ hc)) hn hp
  | push m₀ tag s action σ σ' purpose body proceeds eval enter settled session pushed =>
    have hc' := hc
    rw [pushed] at hc'
    rcases List.mem_cons.1 hc' with rfl | hc'
    · have hσ : σ.store = m.session.store :=
        ((Session.keeps_evalAction s.action).beside eval).store.trans proceeds.store
      have hm := Session.made_of_begin enter hn
      refine lost_of_entered ho pushed ?_ hp ⟨hσ ▸ hm.1, ?_⟩
      · rw [pendingOf_congr proceeds.purposes]
        exact List.Sublist.refl _
      · rw [session]
        exact hm.2
    · exact old (proceeds.purposes ▸ List.mem_map_of_mem hc') hn hp
  | turn call below σ' purpose body calls enter settled session turned =>
    have hc' := hc
    rw [turned] at hc'
    rcases List.mem_cons.1 hc' with rfl | hc'
    · have hm := Session.made_of_finish enter hn
      refine lost_of_entered ho turned ?_ hp ⟨hm.1, ?_⟩
      · rw [Session.pending, calls, pendingOf_cons]
        exact List.sublist_append_right _ _
      · rw [session]
        exact hm.2
    · exact old (calls ▸ List.mem_map_of_mem (List.mem_cons_of_mem _ hc')) hn hp

theorem fillsLost (s : Script) (k : Nat) : (run k (load s)).session.FillsLost := by
  induction k with
  | zero =>
    intro c hc
    cases hc
  | succ k ih =>
    rw [run_step]
    exact fillsLost_step (owned s k) ih

/-- What is lost in one state is lost in all later ones. -/
theorem lost_run (s : Script) (k : Nat) {n : NodeId}
    (hl : (run k (load s)).session.store.Lost (run k (load s)).session.pending n) (j : Nat) :
    (run (k + j) (load s)).session.store.Lost (run (k + j) (load s)).session.pending n := by
  induction j with
  | zero => exact hl
  | succ j ih =>
    rw [← Nat.add_assoc, run_step]
    exact ih.move (owned s (k + j)) (move_step _)

/-- What a step makes without beginning a call is lost. -/
theorem lost_of_settled (s : Script) (k : Nat)
    (hs : (run (k + 1) (load s)).settled ≠ none) {n : NodeId}
    (hn : (run k (load s)).session.store.next ≤ n ∧ n < (run (k + 1) (load s)).session.store.next) :
    (run (k + 1) (load s)).session.store.Lost (run (k + 1) (load s)).session.pending n := by
  rw [run_step] at hs hn ⊢
  have ho := owned s k
  refine .of_new (move_step _) hn.1 hn.2 fun hm => ?_
  have hsub : (run k (load s)).step.session.pending.Sublist (run k (load s)).session.pending := by
    cases (run k (load s)).callCases with
    | same advanced =>
      rw [Session.pending, pendingOf_congr advanced.purposes]
      exact List.Sublist.refl _
    | fail call below e calls popped =>
      rw [Session.pending, Session.pending, popped, calls, pendingOf_cons]
      exact List.sublist_append_right _ _
    | ended call below σ' r calls done session =>
      rw [Session.pending, Session.pending, session, calls, pendingOf_cons]
      exact List.sublist_append_right _ _
    | push _ _ _ _ _ _ _ _ _ _ _ settled => exact absurd settled hs
    | turn _ _ _ _ _ _ _ settled => exact absurd settled hs
  exact Nat.not_lt.2 hn.1 (ho.of_made (ho.made n (hsub.subset hm))).1

end Machine

/-- What a call was filling for the first time is lost as soon as the call is given up. -/
theorem Store.Owned.lost_of_popped {σ : Session} {h : List Event}
    (ho : σ.store.Owned h σ.pending) (hf : σ.FillsLost) {j : Nat} {c : Call}
    (hc : c ∈ σ.calls.take j) {n : NodeId} (hn : c.purpose.made? = some n) :
    σ.store.Lost (pendingOf (σ.calls.drop j)) n := by
  have hsplit : σ.pending = pendingOf (σ.calls.take j) ++ pendingOf (σ.calls.drop j) := by
    unfold Session.pending pendingOf
    rw [← List.filterMap_append, List.take_append_drop]
  cases hp : c.purpose.pending? with
  | none =>
    have hl := hf c (List.mem_of_mem_take hc) n hn hp
    exact ⟨hl.there, hl.unlisted, fun hm => hl.idle (hsplit ▸ List.mem_append_right _ hm)⟩
  | some n' =>
    -- it waited to be listed once, and now it does not wait any more
    cases (Purpose.made?_of_pending? hp).symm.trans hn
    have hm : n ∈ pendingOf (σ.calls.take j) := List.mem_filterMap.2 ⟨c, hc, hp⟩
    have hw := ho.waiting
    rw [hsplit] at hw
    have hmem : n ∈ σ.pending := hsplit ▸ List.mem_append_left _ hm
    exact ⟨(ho.of_made (ho.made n hmem)).1, ho.apart n hmem,
      fun hd => List.disjoint_of_nodup_append hw hm hd⟩

/-! ### What is seen -/

/-- Being shown by no tree but its own and those in it: neither by one that is written as a whole,
nor by an iteration that is outside of it. -/
structure Session.Unseen (σ : Session) (n : NodeId) : Prop where
  unlisted : ∀ p, n ∉ (σ.store.get p).children
  /-- the blocks of a tree come from rule sets elsewhere -/
  blocks : ∀ q, q ∉ σ.store.forest.preorder n → ∃ look, ∃ sources : List NodeId,
    (∀ x ∈ sources, x ∉ σ.store.forest.preorder n) ∧ σ.store.blocks σ.hostName q =
      (sources.mapM (σ.store.block? look)).map List.reduceOption
  /-- and so do those of an iteration -/
  iteration : ∀ c : Cursor, (∀ q ∈ c.nodes, q ∉ σ.store.forest.preorder n) → ∀ look,
    ∃ sources : List NodeId, (∀ x ∈ sources, x ∉ σ.store.forest.preorder n) ∧
      c.drain σ.store look = (sources.mapM (σ.store.block? look)).map List.reduceOption

theorem Store.Lost.unseen {σ : Session} {pending : List NodeId} {n : NodeId}
    (hl : σ.store.Lost pending n) : σ.Unseen n := by
  have hc (c : Cursor) (hc : ∀ q ∈ c.nodes, q ∉ σ.store.forest.preorder n) (look : Appearance) :
      ∃ sources : List NodeId, (∀ x ∈ sources, x ∉ σ.store.forest.preorder n) ∧
        c.drain σ.store look = (sources.mapM (σ.store.block? look)).map List.reduceOption :=
    ⟨c.remaining σ.store, fun x hx => Cursor.remaining_outside hl.unlisted hc hx,
      Cursor.drain_eq_mapM ..⟩
  refine ⟨hl.unlisted, fun q hq => ?_, hc⟩
  have hs : ∀ x ∈ (Cursor.start q).nodes, x ∉ σ.store.forest.preorder n := by
    intro x hx
    cases List.mem_singleton.1 hx
    exact hq
  rw [Store.blocks]
  exact ⟨_, hc (.start q) hs _⟩

namespace Machine

/-- An error that a statement raises passes unchanged through all calls up to the first attempt. It
changes no rule set on its way. What the calls that it ends were filling for the first time, and
what the statement itself had just made, is neither listed nor seen in any tree but its own, ever
after. -/
theorem failure_hides (s : Script) (k : Nat) {tag : Tag} {r : Except Error Result} {e : Error}
    (h : (run k (load s)).Raises tag r e) :
    (∀ i ≤ (run k (load s)).crossed.length,
      run (k + (i + 1)) (load s) = (run k (load s)).unwound tag r e i ∧
      (run (k + (i + 1)) (load s)).session.store = (run k (load s)).session.store) ∧
    (∀ i c, (run k (load s)).crossed[i]? = some c →
      (run (k + (i + 1)) (load s)).settled = some (c.tag, .error e) ∧
      ∀ n, c.purpose.made? = some n → ∀ j, i < j → (run (k + j) (load s)).session.Unseen n) ∧
    ∀ before, before + 1 = k → ∀ n, (run before (load s)).session.store.next ≤ n →
      n < (run k (load s)).session.store.next → ∀ j, (run (k + j) (load s)).session.Unseen n := by
  have ho := owned s k
  have hf := fillsLost s k
  have hrun (i : Nat) (hi : i ≤ (run k (load s)).crossed.length) :
      run (k + (i + 1)) (load s) = (run k (load s)).unwound tag r e i := by
    rw [run_add, run_unwinding h i hi]
  obtain ⟨handles, saved, hkeep⟩ := keepResult_eq (run k (load s)).session tag r
  refine ⟨fun i hi => ⟨hrun i hi, ?_⟩, fun i c hc => ?_, fun before hb n hnew hn j => ?_⟩
  · rw [hrun i hi]
    unfold unwound
    rw [hkeep]
  · obtain ⟨hi, hci⟩ := List.getElem?_eq_some_iff.1 hc
    have hcalls : (run k (load s)).session.calls[i]? = some c := by
      have hsplit : (run k (load s)).session.calls = (run k (load s)).crossed ++ _ :=
        List.takeWhile_append_dropWhile.symm
      rw [hsplit, List.getElem?_append_left hi, hc]
    have hcatch : c.purpose.catches = false := by
      simpa using List.mem_takeWhile_imp (List.mem_of_getElem? hc)
    refine ⟨?_, fun n hn j hj => ?_⟩
    · rw [hrun i (Nat.le_of_lt hi)]
      exact (raises_unwound hcalls hcatch).1
    · obtain ⟨d, rfl⟩ := Nat.exists_eq_add_of_lt hj
      have hl : (run (k + (i + 1)) (load s)).session.store.Lost
          (run (k + (i + 1)) (load s)).session.pending n := by
        rw [hrun i (Nat.le_of_lt hi)]
        unfold unwound
        rw [hkeep]
        refine ho.lost_of_popped hf (j := i + 1) ?_ hn
        exact List.mem_of_getElem? (i := i) (by rw [List.getElem?_take_of_lt (Nat.lt_succ_self i), hcalls])
      have hlost := (lost_run s (k + (i + 1)) hl d).unseen
      rwa [show k + (i + 1) + d = k + (i + d + 1) by omega] at hlost
  · subst hb
    have hsome : (run (before + 1) (load s)).settled ≠ none := by
      rw [h.1]
      simp
    exact (lost_run s (before + 1) (lost_of_settled s before hsome ⟨hnew, hn⟩) j).unseen

end Machine

/-- A script in which an error crosses two selections, one inside of the other, and is caught. The
outer one had written on the root before. -/
def Script.failing : Script where
  steps := [.mk (.build (.text "a") (.inline [
      .mk (.attempt [
        .mk (.select (.enclosing 0) "select" (some (.text ":b")) (some (.inline [
          .mk (.write (.enclosing 1) (.text "x;")) none none,
          .mk (.select (.enclosing 0) "select" (some (.text ":c")) (some (.inline [
            .mk (.raise "lost") none none]))) none none]))) none none]) none none])
    none []) (some "root") none]
  generators := .empty
  logs := false

/-- Both rule sets that were being filled are unseen from then on, and what was written stays. -/
theorem Machine.failure_hides_failing :
    (run 7 (load .failing)).failure? = some (⟨[0, 0, 0, 1, 0], none, none⟩, .raised "lost") ∧
      (run 9 (load .failing)).failure? = some (⟨[0, 0, 0], none, none⟩, .raised "lost") ∧
      (∀ j, 1 < j → (run (7 + j) (load .failing)).session.Unseen 1) ∧
      (∀ j, 0 < j → (run (7 + j) (load .failing)).session.Unseen 2) ∧
      ((run 10 (load .failing)).session.store.get 0).text = "x;" := by
  have hf : (run 7 (load .failing)).failure? =
      some (⟨[0, 0, 0, 1, 0], none, none⟩, .raised "lost") := by decide +kernel
  have h := failure_hides .failing 7 (raises_of_failure? hf)
  have hcross (i : Nat) (n : NodeId)
      (hn : ((run 7 (load .failing)).crossed[i]?.bind fun c => c.purpose.made?) = some n) :
      ∀ j, i < j → (run (7 + j) (load .failing)).session.Unseen n := by
    obtain ⟨c, hc, hm⟩ := Option.bind_eq_some_iff.1 hn
    exact (h.2.1 i c hc).2 n hm
  exact ⟨hf, by decide +kernel, hcross 1 1 (by decide +kernel), hcross 0 2 (by decide +kernel),
    by decide +kernel⟩

end RuleTree
