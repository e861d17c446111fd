import RuleTree.Proofs.Calls.Perform
import RuleTree.Proofs.Failure.Unwinding
import RuleTree.Proofs.Rebuilding.Abreast

/-!
# Statements that are completed in two machines

* `Machine.Cleanly`: a statement that is completed without any statement inside it failing;
* `Ground.Fit.abreast`: as soon as they enter the same body, two machines are side by side;
* `Ground.Abreast.over`: what two machines side by side come to;
* `Ground.corresponds`: a statement is completed in the one machine if it is in the other;
* `Ground.cleanly_of_cleanly`: and without a failure in the first one if it is so in the second.
-/

namespace RuleTree

namespace Machine

/-- A statement that begins in a state is completed with a result in another state, and meanwhile no
statement fails. -/
def Cleanly (m : Machine) (tag : Tag) (action : Action Datum (List Stmt)) (r : Except Error Result)
    (m' : Machine) : Prop :=
  ∃ n, run n (m.perform tag action) = m' ∧ m'.settled = some (tag, r) ∧
    m'.session.calls = m.session.calls ∧
    ∀ j < n, m.session.calls.length < (run j (m.perform tag action)).session.calls.length ∧
      ¬ (run j (m.perform tag action)).Fails

theorem Cleanly.performs {m m' : Machine} {tag : Tag} {action : Action Datum (List Stmt)}
    {r : Except Error Result} (h : m.Cleanly tag action r m') : m.Performs tag action r m' := by
  obtain ⟨n, hn, hs, hc, hall⟩ := h
  exact ⟨n, hn, hs, hc, fun j hj => (hall j hj).1⟩

/-- Whether a statement outside of any body is completed with a certain result can be computed. -/
theorem cleanly_of_run_of_settled (m : Machine) (tag : Tag) (action : Action Datum (List Stmt))
    (n : Nat) (accepts : Except Error Result → Bool) (outside : m.session.calls.isEmpty = true)
    (ended : (run n (m.perform tag action)).session.calls.isEmpty = true)
    (settled : ((run n (m.perform tag action)).settled.any fun s => s.1 == tag && accepts s.2) = true)
    (meanwhile : ∀ j < n,
      m.session.calls.length < (run j (m.perform tag action)).session.calls.length ∧
        ¬ (run j (m.perform tag action)).Fails) :
    ∃ r, accepts r = true ∧ m.Cleanly tag action r (run n (m.perform tag action)) := by
  obtain ⟨⟨tag', r⟩, hs, h⟩ := (Option.any_eq_true ..).1 settled
  obtain ⟨htag, hr⟩ := Bool.and_eq_true_iff.1 h
  cases beq_iff_eq.1 htag
  exact ⟨r, hr, n, rfl, hs, (List.isEmpty_iff.1 ended).trans (List.isEmpty_iff.1 outside).symm,
    meanwhile⟩

/-- Whether a statement is completed with success can be seen from so many states. -/
theorem cleanly_of_run (m : Machine) (tag : Tag) (action : Action Datum (List Stmt)) (n : Nat)
    (outside : m.session.calls.isEmpty = true)
    (ended : (run n (m.perform tag action)).session.calls.isEmpty = true)
    (ok : ((run n (m.perform tag action)).settled.any fun s => s.1 == tag && s.2.toBool) = true)
    (meanwhile : ∀ j < n,
      m.session.calls.length < (run j (m.perform tag action)).session.calls.length ∧
        ¬ (run j (m.perform tag action)).Fails) :
    ∃ a, m.Cleanly tag action (.ok a) (run n (m.perform tag action)) := by
  obtain ⟨r, hr, hp⟩ := cleanly_of_run_of_settled m tag action n _ outside ended ok meanwhile
  cases r with
  | error e => cases hr
  | ok a => exact ⟨a, hp⟩

end Machine

namespace Ground

variable {γ : Ground} {closed : Prop} {m m' P P' : Machine} {tag tag' : Tag}
  {action action' : Action Datum (List Stmt)}

/-- Once the body is entered in both machines, they are side by side. -/
theorem Fit.abreast (hf : γ.Fit closed) {body : List Stmt} (hc : m.session.calls = γ.outer)
    (hc' : m'.session.calls = γ.outer') (hb : m.session.begin action = .enter γ.left γ.purpose body)
    (hb' : m'.session.begin action' = .enter γ.right γ.purpose' body) (hbody : γ.bodies 1 body)
    (hm : m.settled = none) (hm' : m'.settled = none) :
    γ.Abreast (m.perform γ.tag action) (m'.perform γ.tag' action') := by
  rw [Machine.perform_enter hb, Machine.perform_enter hb', hc, hc']
  refine ⟨⟨.of_kept rfl, .of_kept rfl, ?_⟩, ⟨[some γ.root'], ?_⟩, ?_⟩
  · exact Pairing.mirrors_start hf.empty'.1 hf.empty'.2.1 hf.empty'.2.2
  · exact .root rfl (hf.closes 1 _ hbody) rfl rfl rfl rfl
  · show SettledTwin _ _ _ m.settled m'.settled
    rw [hm, hm']
    exact .none

/-- Nothing is visible above roots without parents. -/
theorem Abreast.shut (h : γ.Abreast m m')
    (hp : closed → (γ.left.store.get γ.root).parent = none)
    (hp' : (γ.right.store.get γ.root').parent = none) :
    Shut γ closed m.session m'.session := by
  have left (hc : closed) : m.session.parent? γ.root = none := by
    unfold Session.parent?
    rw [show (m.session.store.get γ.root).parent = _ from h.twins.store.root.parent.trans (hp hc)]
    rfl
  have right : m'.session.parent? γ.root' = none := by
    unfold Session.parent?
    rw [show (m'.session.store.get γ.root').parent = _ from h.twins.store.root'.parent.trans hp']
    rfl
  refine ⟨fun name ht => ?_, fun hc name => ?_⟩
  · rw [Session.seesAbove_of_root right] at ht
    cases ht
  · rw [Session.seesAbove_of_root right, Session.seesAbove_of_root (left hc)]

/-- A statement that has just failed in the first machine has done so in the second. -/
theorem Abreast.fails (h : γ.Abreast m m') (hf : m.Fails) : m'.Fails := by
  obtain ⟨tag, r, e, hs, he⟩ := hf
  have ht := h.settled
  rw [hs] at ht
  generalize hs' : m'.settled = settled' at ht
  cases ht with
  | @some _ tag' _ r' bare bare' told =>
    rcases told.cases_on with ⟨e', -, he'⟩ | ⟨a, b, ha, -⟩
    · exact ⟨tag', r', e', hs', he'⟩
    · rw [he] at ha
      cases ha

theorem Abreast.length_lt (h : γ.Abreast m m') : γ.outer.length < m.session.calls.length ∧
    γ.outer'.length < m'.session.calls.length := by
  obtain ⟨_, hc⟩ := h.frames
  exact hc.length_lt

/-- As soon as the body is over in the second machine, it is over in both. -/
theorem Abreast.over (hf : γ.Fit closed) (h : γ.Abreast P P')
    (hs : ∀ i, γ.Abreast (Machine.run i P) (Machine.run i P') →
      Shut γ closed (Machine.run i P).session (Machine.run i P').session) {k : Nat}
    (smooth : ∀ j ≤ k, γ.outer'.length < (Machine.run j P').session.calls.length →
      closed ∨ ¬ (Machine.run j P').Fails)
    (hlong : ∀ j < k, γ.outer'.length < (Machine.run j P').session.calls.length)
    (hcalls : (Machine.run k P').session.calls = γ.outer') :
    (∀ i < k, γ.Abreast (Machine.run i P) (Machine.run i P')) ∧
      γ.Over (Machine.run k P) (Machine.run k P') := by
  rcases h.run hf hs k smooth with hall | ⟨j, hj, hall, ho⟩
  · have hlt := (hall k (Nat.le_refl k)).length_lt.2
    rw [hcalls] at hlt
    exact absurd hlt (Nat.lt_irrefl _)
  · have hjk : j + 1 = k := by
      refine Nat.le_antisymm hj (Nat.le_of_not_lt fun hlt => ?_)
      have hlt' := hlong (j + 1) hlt
      rw [ho.calls.2] at hlt'
      exact Nat.lt_irrefl _ hlt'
    subst hjk
    exact ⟨fun i hi => hall i (Nat.le_of_lt_succ hi), ho⟩

theorem Over.settled (h : γ.Over m m') :
    (∃ r, m.settled = some (γ.tag, r)) ∧ ∃ r', m'.settled = some (γ.tag', r') := by
  cases h with
  | raised e settled settled' => exact ⟨⟨_, settled⟩, _, settled'⟩
  | given _ left right => exact ⟨⟨_, left.settled⟩, _, right.settled⟩

/-- If the comparison is closed, each of the two statements is completed if the other one is. -/
theorem corresponds (hf : γ.Fit True)
    (h : γ.Abreast (m.perform γ.tag action) (m'.perform γ.tag' action'))
    (hs : ∀ i, γ.Abreast (Machine.run i (m.perform γ.tag action))
        (Machine.run i (m'.perform γ.tag' action')) →
      Shut γ True (Machine.run i (m.perform γ.tag action)).session
        (Machine.run i (m'.perform γ.tag' action')).session)
    (hc : m.session.calls = γ.outer) (hc' : m'.session.calls = γ.outer')
    {R : Machine → Machine → Except Error Result → Except Error Result → Prop}
    (hR : ∀ P P' r r', γ.Over P P' → P.settled = some (γ.tag, r) → P'.settled = some (γ.tag', r') →
      R P P' r r') : m.Corresponds m' γ.tag γ.tag' action action' R := by
  have lockstep : Machine.Lockstep (fun P P' => γ.Abreast P P' ∧ ∃ i,
        P = Machine.run i (m.perform γ.tag action) ∧ P' = Machine.run i (m'.perform γ.tag' action'))
      γ.Over m.session.calls m'.session.calls γ.tag γ.tag' := {
    step := fun {P P'} hi => by
      obtain ⟨ha, i, rfl, rfl⟩ := hi
      rcases (ha.step hf (hs i ha)).cases_on with hnext | ho | ⟨ajar, -⟩
      · exact .inl ⟨hnext, i + 1, (Machine.run_step ..).symm, (Machine.run_step ..).symm⟩
      · exact .inr ho
      · exact absurd trivial ajar
    longer := fun hi => by
      rw [hc, hc']
      exact hi.1.length_lt
    calls := fun ho => by
      rw [hc, hc']
      exact ho.calls
    settled := Over.settled }
  exact lockstep.corresponds ⟨h, 0, rfl, rfl⟩ hR

/-- In any case, a statement is completed without a failure in the first machine if it is so in the
second. -/
theorem cleanly_of_cleanly (hf : γ.Fit closed)
    (h : γ.Abreast (m.perform γ.tag action) (m'.perform γ.tag' action'))
    (hs : ∀ i, γ.Abreast (Machine.run i (m.perform γ.tag action))
        (Machine.run i (m'.perform γ.tag' action')) →
      Shut γ closed (Machine.run i (m.perform γ.tag action)).session
        (Machine.run i (m'.perform γ.tag' action')).session)
    (hc : m.session.calls = γ.outer) (hc' : m'.session.calls = γ.outer') {r' : Except Error Result}
    {m₁' : Machine} (hp : m'.Cleanly γ.tag' action' r' m₁') :
    ∃ r m₁, m.Cleanly γ.tag action r m₁ ∧ γ.Over m₁ m₁' := by
  obtain ⟨k, rfl, hset, hcalls, hlong⟩ := hp
  rw [hc'] at hcalls hlong
  have smooth (j : Nat) (hj : j ≤ k) (hin : γ.outer'.length <
      (Machine.run j (m'.perform γ.tag' action')).session.calls.length) :
      closed ∨ ¬ (Machine.run j (m'.perform γ.tag' action')).Fails := by
    rcases Nat.lt_or_eq_of_le hj with hj | rfl
    · exact .inr (hlong j hj).2
    · rw [hcalls] at hin
      exact absurd hin (Nat.lt_irrefl _)
  obtain ⟨hall, ho⟩ := h.over hf hs smooth (fun j hj => (hlong j hj).1) hcalls
  obtain ⟨⟨r, hr⟩, -⟩ := ho.settled
  refine ⟨r, _, ⟨k, rfl, hr, ?_, fun j hj => ⟨?_, fun hfa => ?_⟩⟩, ho⟩
  · rw [hc, ho.calls.1]
  · rw [hc]
    exact (hall j hj).length_lt.1
  · exact (hlong j hj).2 ((hall j hj).fails hfa)

end Ground

end RuleTree
