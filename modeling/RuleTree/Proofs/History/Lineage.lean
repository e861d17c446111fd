import RuleTree.Proofs.History.Run
import Mathlib.Data.List.Nodup
import Mathlib.Data.List.Pairwise

/-!
# Where rule sets come from

* `Event.made?`: the rule set that an event makes;
* `Event.Holds`: what an event that made a rule set says of it ever after;
* `Store.Becomes.made`, `Store.Trail.made`: an event makes the next rule set or none;
* `Store.Becomes.holds`, `Store.Trail.holds`: what events say is so after them;
* `Store.Recorded`: every rule set was made by one event, which holds;
* `Store.Owned`: besides, only selected rule sets are listed as children or pending, each in one
  place;
* `Machine.owned`: so it is in every state of a script.

Reset rule sets may forget their children, but a rule set that is listed once is never pending
again, and so is never listed a second time.
-/

namespace RuleTree

/-- The rule set that an event makes. -/
def Event.made? : Event → Option NodeId
  | planted n _ _ _ => some n
  | sprouted n _ _ _ _ => some n
  | _ => none

/-- What an event says of the rule set that it made: a root has no parent, any other has its parent
and the options of its parent, and a selected fragment goes together with the selector of the
parent. -/
def Event.Holds (s : Store) : Event → Prop
  | planted n selector _ _ => (s.get n).selector = selector ∧ (s.get n).parent = none
  | sprouted n p selector _ fragment =>
    (s.get n).selector = selector ∧ (s.get n).parent = (some p).filter (· < n) ∧
      (p < n → (s.get n).options = (s.get p).options) ∧
      ∀ f, fragment = some f → p < n ∧ ∃ stamp, (s.get p).selector.plus stamp f = .ok selector
  | _ => True

/-- What an event says stays true. -/
theorem Event.Holds.trail {s t : Store} {e : Event} {events : List Event} (h : e.Holds s)
    (hm : ∀ n, e.made? = some n → n < s.next) (ht : s.Trail events t) : e.Holds t := by
  cases e with
  | planted n selector host o =>
    have hn := ht.madeAs (hm n rfl)
    exact ⟨hn.selector.trans h.1, hn.parent.trans h.2⟩
  | sprouted n p selector host fragment =>
    obtain ⟨hs, hp, ho, hf⟩ := h
    have hlt := hm n rfl
    have hn := ht.madeAs hlt
    refine ⟨hn.selector.trans hs, hn.parent.trans hp, fun hpn => ?_, fun f hff => ?_⟩
    · have hp' := ht.madeAs (Nat.lt_trans hpn hlt)
      rw [hn.options, hp'.options, ho hpn]
    · obtain ⟨hpn, stamp, hplus⟩ := hf f hff
      exact ⟨hpn, stamp, by rw [(ht.madeAs (Nat.lt_trans hpn hlt)).selector, hplus]⟩
  | _ => trivial

namespace Store

/-! ### What is made -/

section Made

variable {s t : Store} {e : Event} {events : List Event}

/-- An event makes the next rule set or none. -/
theorem Becomes.made (h : Becomes s e t) :
    e.made? = some s.next ∧ t.next = s.next + 1 ∨ e.made? = none ∧ t.next = s.next := by
  cases h with
  | planted => exact .inl ⟨rfl, s.next_plant ..⟩
  | sprouted => exact .inl ⟨rfl, s.next_sprout ..⟩
  | selected | wrote | defined | cleared | optionSet => exact .inr ⟨rfl, by simp⟩

/-- What an event says is so at first. -/
theorem Becomes.holds (h : Becomes s e t) : e.Holds t := by
  cases h with
  | planted selector host o =>
    show ((s.plant selector host o).get s.next).selector = _ ∧ _
    rw [get_plant, if_pos rfl]
    exact ⟨rfl, rfl⟩
  | sprouted p selector host fragment hf =>
    show ((s.sprout p selector host).get s.next).selector = _ ∧ _
    have hp (hlt : p < s.next) : (s.sprout p selector host).get p = s.get p := by
      rw [get_sprout, if_neg (Nat.ne_of_lt hlt)]
    rw [get_sprout, if_pos rfl]
    refine ⟨rfl, rfl, fun hlt => by rw [hp hlt]; rfl, fun f hff => ?_⟩
    obtain ⟨stamp, hplus⟩ := hf f hff
    have hlt := lt_next_of_plus hplus
    exact ⟨hlt, stamp, by rw [hp hlt, hplus]⟩
  | selected | wrote | defined | cleared | optionSet => trivial

/-- What events say is so after them. -/
theorem Trail.holds (h : s.Trail events t) (he : e ∈ events) : e.Holds t := by
  induction h with
  | nil => cases he
  | @cons s t u e' es hb ht ih =>
    rcases List.mem_cons.1 he with rfl | he
    · refine hb.holds.trail (fun n hn => ?_) ht
      rcases hb.made with ⟨hm, hnext⟩ | ⟨hm, -⟩
      · cases hm.symm.trans hn
        exact hnext ▸ Nat.lt_succ_self _
      · cases hm.symm.trans hn
    · exact ih he

/-- Events make the next rule sets, one after the other. -/
theorem Trail.made (h : s.Trail events t) :
    events.filterMap Event.made? = List.range' s.next (t.next - s.next) := by
  induction h with
  | nil s => rw [Nat.sub_self]; rfl
  | @cons s t u e es hb ht ih =>
    have one {a b c : Nat} (hb : b = a + 1) (hc : b ≤ c) : c - a = c - b + 1 := by omega
    rcases hb.made with ⟨hm, hn⟩ | ⟨hm, hn⟩
    · rw [List.filterMap_cons_some hm, ih, one hn ht.next_le, List.range'_succ, hn]
    · rw [List.filterMap_cons_none hm, ih, hn]

end Made

/-! ### One event for every rule set -/

/-- Every rule set was made by just one event, in the order of the numbers, and what the events say
is so. -/
structure Recorded (s : Store) (h : List Event) : Prop where
  made : h.filterMap Event.made? = List.range s.next
  holds : ∀ e ∈ h, e.Holds s

namespace Recorded

variable {s t : Store} {h : List Event} {e : Event}

theorem lt_next (hr : s.Recorded h) (he : e ∈ h) {n : NodeId} (hn : e.made? = some n) :
    n < s.next := by
  have hm : n ∈ h.filterMap Event.made? := List.mem_filterMap.2 ⟨e, he, hn⟩
  rw [hr.made] at hm
  exact List.mem_range.1 hm

/-- No two events make the same rule set. -/
theorem made_unique (hr : s.Recorded h) {e' : Event} (he : e ∈ h) (he' : e' ∈ h) {n : NodeId}
    (hn : e.made? = some n) (hn' : e'.made? = some n) : e = e' := by
  have hd : (h.filterMap Event.made?).Nodup := hr.made ▸ List.nodup_range
  rw [List.Nodup, List.pairwise_filterMap] at hd
  by_contra hne
  have : Std.Symm fun e e' : Event =>
      ∀ b, e.made? = some b → ∀ b', e'.made? = some b' → b ≠ b' :=
    ⟨fun _ _ h b hb b' hb' => (h b' hb' b hb).symm⟩
  exact hd.forall he he' hne n hn n hn' rfl

theorem becomes (hr : s.Recorded h) (hb : s.Becomes e t) : t.Recorded (h ++ [e]) := by
  have hold : ∀ e' ∈ h, e'.Holds t := fun e' he' =>
    (hr.holds e' he').trail (fun n hn => hr.lt_next he' hn) (.single hb)
  refine ⟨?_, fun e' he' => ?_⟩
  · rw [List.filterMap_append, hr.made]
    rcases hb.made with ⟨hm, hn⟩ | ⟨hm, hn⟩
    · rw [hn, List.range_succ, List.filterMap_cons_some hm, List.filterMap_nil]
    · rw [hn, List.filterMap_cons_none hm, List.filterMap_nil, List.append_nil]
  · rcases List.mem_append.1 he' with he' | he'
    · exact hold e' he'
    · exact List.mem_singleton.1 he' ▸ hb.holds

theorem trail (hr : s.Recorded h) {events : List Event} (ht : s.Trail events t) :
    t.Recorded (h ++ events) :=
  ht.preserves (P := fun h s => s.Recorded h) (fun hr hb => hr.becomes hb) hr

/-- What is made is new. -/
theorem next_le_of_made (hr : s.Recorded h) {events : List Event} (ht : s.Trail events t)
    (he : e ∈ events) {n : NodeId} (hn : e.made? = some n) : s.next ≤ n := by
  have hd : ((h ++ events).filterMap Event.made?).Nodup := by
    rw [(hr.trail ht).made]
    exact List.nodup_range
  rw [List.filterMap_append, hr.made] at hd
  by_contra hlt
  exact List.disjoint_of_nodup_append hd (List.mem_range.2 (Nat.not_le.1 hlt))
    (List.mem_filterMap.2 ⟨e, he, hn⟩)

end Recorded

/-! ### One place for every rule set -/

/-- Every rule set has a place as a child or as one that is pending at most once, and only if it was
selected. -/
structure Owned (s : Store) (h : List Event) (pending : List NodeId) : Prop where
  recorded : s.Recorded h
  single : ∀ p, (s.get p).children.Nodup
  listed : ∀ p, ∀ c ∈ (s.get p).children, MadeBySelection h c
  waiting : pending.Nodup
  made : ∀ c ∈ pending, MadeBySelection h c
  apart : ∀ c ∈ pending, ∀ p, c ∉ (s.get p).children

theorem owned_empty : Owned .empty [] [] where
  recorded := ⟨rfl, by simp⟩
  single p := List.nodup_nil
  listed p c hc := by cases hc
  waiting := List.nodup_nil
  made c hc := by cases hc
  apart c hc := by cases hc

namespace Owned

variable {s t : Store} {h events : List Event} {pending pending' : List NodeId}

/-- What was made by a selection is what the event says. -/
theorem of_made (ho : s.Owned h pending) {c : NodeId} (hc : MadeBySelection h c) :
    c < s.next ∧ ∃ p f stamp, .sprouted c p (s.get c).selector none (some f) ∈ h ∧ p < c ∧
      (s.get c).parent = some p ∧ (s.get c).options = (s.get p).options ∧
      (s.get p).selector.plus stamp f = .ok (s.get c).selector := by
  obtain ⟨p, selector, f, he⟩ := hc
  obtain ⟨hs, hp, hopts, hf⟩ := ho.recorded.holds _ he
  obtain ⟨hpc, stamp, hplus⟩ := hf f rfl
  refine ⟨ho.recorded.lt_next he rfl, p, f, stamp, hs ▸ he, hpc, ?_, hopts hpc, hs ▸ hplus⟩
  rw [hp, Option.filter_some, if_pos (decide_eq_true hpc)]

/-- Events that list nothing keep everything in its place. -/
theorem quiet (ho : s.Owned h pending) (ht : s.Trail events t)
    (hq : ∀ e ∈ events, e.lists = false) : t.Owned (h ++ events) pending where
  recorded := ho.recorded.trail ht
  single p := (ho.single p).sublist (ht.children_sublist hq p)
  listed p c hc := (ho.listed p c ((ht.children_sublist hq p).subset hc)).append_right _
  waiting := ho.waiting
  made c hc := (ho.made c hc).append_right _
  apart c hc p hp := ho.apart c hc p ((ht.children_sublist hq p).subset hp)

/-- Some rule sets that were pending are given up. -/
theorem give_up (ho : s.Owned h pending) (hp : pending'.Sublist pending) : s.Owned h pending' where
  recorded := ho.recorded
  single := ho.single
  listed := ho.listed
  waiting := ho.waiting.sublist hp
  made c hc := ho.made c (hp.subset hc)
  apart c hc := ho.apart c (hp.subset hc)

/-- A rule set that was only just selected becomes pending. -/
theorem enter (ho : s.Owned h pending) (ht : s.Trail events t)
    (hq : ∀ e ∈ events, e.lists = false) {c : NodeId} (hc : MadeBySelection events c) :
    t.Owned (h ++ events) (c :: pending) := by
  have hnew : s.next ≤ c := by
    obtain ⟨p, selector, f, he⟩ := hc
    exact ho.recorded.next_le_of_made ht he rfl
  have ho' := ho.quiet ht hq
  -- whatever has a place was there before
  have hpending : c ∉ pending := fun hm =>
    Nat.not_lt.2 hnew (ho.of_made (ho.made c hm)).1
  have hchildren (p : NodeId) : c ∉ (t.get p).children := fun hm =>
    Nat.not_lt.2 hnew (ho.of_made (ho.listed p c ((ht.children_sublist hq p).subset hm))).1
  exact
    { ho' with
      waiting := List.nodup_cons.2 ⟨hpending, ho'.waiting⟩
      made := List.forall_mem_cons.2 ⟨hc.append_left h, ho'.made⟩
      apart := List.forall_mem_cons.2 ⟨hchildren, ho'.apart⟩ }

/-- The first rule set that is pending is attached. -/
theorem attach {c p : NodeId} (ho : s.Owned h (c :: pending)) (hp : (s.get c).parent = some p) :
    (s.attach c).Owned (h ++ [.selected p c]) pending := by
  -- the rule set leaves the one place that it had for the other
  obtain ⟨hc, hw⟩ := List.nodup_cons.1 ho.waiting
  have hget (q : NodeId) : ((s.attach c).get q).children = (s.get q).children ∨
      ((s.attach c).get q).children = (s.get q).children ++ [c] := by
    rw [Store.get_attach]
    split
    · exact .inr rfl
    · exact .inl rfl
  have hmem {q d : NodeId} (hd : d ∈ ((s.attach c).get q).children) :
      d ∈ (s.get q).children ∨ d = c := by
    rcases hget q with h | h
    · exact .inl (h ▸ hd)
    · rw [h] at hd
      simpa using hd
  have hcm := ho.made c List.mem_cons_self
  exact
    { recorded := ho.recorded.becomes (.selected p c hp)
      single := by
        intro q
        rcases hget q with h | h
        · rw [h]
          exact ho.single q
        · rw [h, List.nodup_append_comm]
          exact List.nodup_cons.2 ⟨ho.apart c List.mem_cons_self q, ho.single q⟩
      listed := by
        intro q d hd
        rcases hmem hd with hd | rfl
        · exact (ho.listed q d hd).append_right _
        · exact hcm.append_right _
      waiting := hw
      made := by
        intro d hd
        exact (ho.made d (List.mem_cons_of_mem _ hd)).append_right _
      apart := by
        intro d hd q hq
        rcases hmem hq with hq | rfl
        · exact ho.apart d (List.mem_cons_of_mem _ hd) q hq
        · exact hc hd }

/-- A move keeps everything in its place. -/
theorem move (ho : s.Owned h pending) (hm : Move s pending events t pending') :
    t.Owned (h ++ events) pending' := by
  cases hm with
  | quiet trail quiet sub => exact (ho.quiet trail quiet).give_up sub
  | enter trail quiet made => exact ho.enter trail quiet made
  | attach parent => exact ho.attach parent

end Owned

end Store

/-- In every state of a script every rule set has its place. -/
theorem Machine.owned (s : Script) (k : Nat) :
    (run k (load s)).session.store.Owned (history k (load s)) (run k (load s)).session.pending :=
  run_preserves (P := fun h s pending => s.Owned h pending) (fun ho hm => ho.move hm)
    (h := []) Store.owned_empty k

end RuleTree
