import RuleTree.Proofs.Calls.Turn

/-!
# What a statement comes to

* `Machine.Performs`: a statement that begins in some state is completed with a result in another,
  the first in which its own call is gone;
* `Machine.Completes`, `Machine.completes_run_iff`: the same of any state on the way;
* `Machine.Completes.unique`, `Machine.Completes.iff`: in one way only;
* `Machine.Performs.unique`: it is completed in one way only;
* `Machine.performs_of_done`, `Machine.Performs.of_done`: a statement that is done at once;
* `Machine.Lockstep`, `Machine.Lockstep.completes`: of two states that go on side by side, each one is
  completed if the other one is;
* `Machine.Corresponds`, `Machine.Lockstep.corresponds`: and so it is with two statements;
* `Machine.Awaits`: a call with a given purpose and tag stands on top of others;
* `Purpose.Steady`: a purpose that is done with once its body has ended;
* `Machine.Awaits.step`, `Machine.Awaits.run`: such a call stays until its body has ended or has
  failed, and so as long as its statement is in progress;
* `Machine.Completes.ends`, `Machine.Performs.ends`: so a statement that waited for a body has failed,
  or its result is what the end of the body gives.
-/

namespace RuleTree

/-- Having nothing more to run once the body has ended. -/
def Purpose.Steady (purpose : Purpose) : Prop :=
  ∀ σ : Session, ∃ σ' r, σ.finish purpose = .done σ' r

theorem Purpose.steady_reset (n : NodeId) (registry : Option RegistryId) (out : Output) :
    (Purpose.reset n registry out).Steady := fun _ => ⟨_, _, rfl⟩

namespace Machine

/-- A statement that begins in a state is completed with a result in another state, and its own call
was in progress all the time until then. -/
def Performs (m : Machine) (tag : Tag) (action : Action Datum (List Stmt))
    (r : Except Error Result) (m' : Machine) : Prop :=
  ∃ n, run n (m.perform tag action) = m' ∧ m'.settled = some (tag, r) ∧
    m'.session.calls = m.session.calls ∧
    ∀ j < n, m.session.calls.length < (run j (m.perform tag action)).session.calls.length

/-- From a state a statement with a given tag is completed with a result in another state, and its
own call, on top of others, was in progress all the time until then. -/
def Completes (P : Machine) (tag : Tag) (outer : List Call) (r : Except Error Result)
    (m' : Machine) : Prop :=
  ∃ n, run n P = m' ∧ m'.settled = some (tag, r) ∧ m'.session.calls = outer ∧
    ∀ j < n, outer.length < (run j P).session.calls.length

theorem Completes.settled {P m' : Machine} {tag : Tag} {outer : List Call}
    {r : Except Error Result} (h : P.Completes tag outer r m') : m'.settled = some (tag, r) := by
  obtain ⟨n, rfl, hs, -⟩ := h
  exact hs

/-- A statement is completed in one way only. -/
theorem Completes.unique {P m₁ m₂ : Machine} {tag : Tag} {outer : List Call}
    {r₁ r₂ : Except Error Result} (h₁ : P.Completes tag outer r₁ m₁)
    (h₂ : P.Completes tag outer r₂ m₂) : r₁ = r₂ ∧ m₁ = m₂ := by
  obtain ⟨i, rfl, hs₁, hc₁, hl₁⟩ := h₁
  obtain ⟨j, rfl, hs₂, hc₂, hl₂⟩ := h₂
  have hij : i = j := by
    rcases Nat.lt_trichotomy i j with hij | hij | hij
    · exact absurd (hl₂ i hij) (by rw [hc₁]; exact Nat.lt_irrefl _)
    · exact hij
    · exact absurd (hl₁ j hij) (by rw [hc₂]; exact Nat.lt_irrefl _)
  subst hij
  rw [hs₁] at hs₂
  cases hs₂
  exact ⟨rfl, rfl⟩

/-- What a statement comes to is known once it is completed somehow. -/
theorem Completes.iff {P m₁ m' : Machine} {tag : Tag} {outer : List Call}
    {r r₁ : Except Error Result} (h : P.Completes tag outer r₁ m₁) :
    P.Completes tag outer r m' ↔ r = r₁ ∧ m' = m₁ := by
  refine ⟨fun h' => h'.unique h, ?_⟩
  rintro ⟨rfl, rfl⟩
  exact h

/-- What has just been completed is completed. -/
theorem completes_of_settled {P : Machine} {tag : Tag} {outer : List Call}
    {r : Except Error Result} (hs : P.settled = some (tag, r)) (hc : P.session.calls = outer) :
    P.Completes tag outer r P :=
  ⟨0, rfl, hs, hc, fun j hj => absurd hj (Nat.not_lt_zero j)⟩

/-- What it comes to is known from every state on the way. -/
theorem completes_run_iff {P m' : Machine} {tag : Tag} {outer : List Call}
    {r : Except Error Result} {k : Nat}
    (hlong : ∀ j < k, outer.length < (run j P).session.calls.length) :
    (run k P).Completes tag outer r m' ↔ P.Completes tag outer r m' := by
  constructor
  · rintro ⟨n, rfl, hs, hc, hl⟩
    refine ⟨k + n, run_add k n P, hs, hc, fun j hj => ?_⟩
    rcases Nat.lt_or_ge j k with hjk | hjk
    · exact hlong j hjk
    · obtain ⟨i, rfl⟩ := Nat.exists_eq_add_of_le hjk
      rw [run_add]
      exact hl i (Nat.lt_of_add_lt_add_left hj)
  · rintro ⟨n, rfl, hs, hc, hl⟩
    have hkn : k ≤ n := by
      refine Nat.le_of_not_lt fun hnk => ?_
      have hlt := hlong n hnk
      rw [hc] at hlt
      exact Nat.lt_irrefl _ hlt
    obtain ⟨i, rfl⟩ := Nat.exists_eq_add_of_le hkn
    refine ⟨i, (run_add k i P).symm, hs, hc, fun j hj => ?_⟩
    rw [← run_add]
    exact hl _ (Nat.add_lt_add_left hj k)

/-- A statement is completed in one way only. -/
theorem Performs.unique {m m₁ m₂ : Machine} {tag : Tag} {action : Action Datum (List Stmt)}
    {r₁ r₂ : Except Error Result} (h₁ : m.Performs tag action r₁ m₁)
    (h₂ : m.Performs tag action r₂ m₂) : r₁ = r₂ ∧ m₁ = m₂ := Completes.unique h₁ h₂

/-- A statement that is done at once is completed at once. -/
theorem performs_of_done {m : Machine} {action : Action Datum (List Stmt)} {σ : Session}
    {r : Except Error Result} (hb : m.session.begin action = .done σ r) (tag : Tag) :
    m.Performs tag action r { m with session := σ, settled := some (tag, r) } := by
  have hc := m.session.calls_begin action
  rw [hb] at hc
  show (m.perform tag action).Completes tag m.session.calls r _
  rw [perform_done hb]
  exact completes_of_settled rfl hc

/-- Its result is that of its beginning. -/
theorem Performs.of_done {m m' : Machine} {tag : Tag} {action : Action Datum (List Stmt)}
    {r r' : Except Error Result} {σ : Session} (h : m.Performs tag action r m')
    (hb : m.session.begin action = .done σ r') : r = r' := (h.unique (performs_of_done hb tag)).1

/-! ### Two statements -/

/-- Two statements that go on side by side, on top of given calls, and are completed at the same
time. -/
structure Lockstep (inside ended : Machine → Machine → Prop) (outer outer' : List Call)
    (tag tag' : Tag) : Prop where
  step : ∀ {P P'}, inside P P' → inside P.step P'.step ∨ ended P.step P'.step
  longer : ∀ {P P'}, inside P P' →
    outer.length < P.session.calls.length ∧ outer'.length < P'.session.calls.length
  calls : ∀ {P P'}, ended P P' → P.session.calls = outer ∧ P'.session.calls = outer'
  settled : ∀ {P P'}, ended P P' →
    (∃ r, P.settled = some (tag, r)) ∧ ∃ r', P'.settled = some (tag', r')

namespace Lockstep

variable {inside ended : Machine → Machine → Prop} {outer outer' : List Call} {tag tag' : Tag}

theorem flip (h : Lockstep inside ended outer outer' tag tag') :
    Lockstep (fun P P' => inside P' P) (fun P P' => ended P' P) outer' outer tag' tag where
  step := h.step
  longer hi := (h.longer hi).symm
  calls ho := (h.calls ho).symm
  settled ho := (h.settled ho).symm

/-- As long as the first one is in progress, so is the second one. -/
theorem run (h : Lockstep inside ended outer outer' tag tag') {P P' : Machine} (start : inside P P')
    {k : Nat} (hlong : ∀ j < k, outer.length < (Machine.run j P).session.calls.length) :
    (∀ j < k, inside (Machine.run j P) (Machine.run j P')) ∧
      (inside (Machine.run k P) (Machine.run k P') ∨ ended (Machine.run k P) (Machine.run k P')) := by
  induction k with
  | zero => exact ⟨fun j hj => absurd hj (Nat.not_lt_zero j), .inl start⟩
  | succ k ih =>
    obtain ⟨hall, hk⟩ := ih fun j hj => hlong j (Nat.lt_succ_of_lt hj)
    have hi : inside (Machine.run k P) (Machine.run k P') := by
      refine hk.resolve_right fun ho => ?_
      have hlt := hlong k (Nat.lt_succ_self k)
      rw [(h.calls ho).1] at hlt
      exact Nat.lt_irrefl _ hlt
    refine ⟨fun j hj => ?_, ?_⟩
    · rcases Nat.lt_succ_iff_lt_or_eq.1 hj with hj | rfl
      · exact hall j hj
      · exact hi
    · rw [run_step, run_step]
      exact h.step hi

/-- What goes on side by side is completed at the same time. -/
theorem completes (h : Lockstep inside ended outer outer' tag tag') {P P' m₁ : Machine}
    {r : Except Error Result} (start : inside P P') (hp : P.Completes tag outer r m₁) :
    ∃ r' m₁', P'.Completes tag' outer' r' m₁' ∧ ended m₁ m₁' := by
  obtain ⟨k, rfl, -, hcalls, hlong⟩ := hp
  obtain ⟨hall, hk⟩ := h.run start hlong
  have ho := hk.resolve_left fun hi => by
    have hlt := (h.longer hi).1
    rw [hcalls] at hlt
    exact Nat.lt_irrefl _ hlt
  obtain ⟨-, r', hr'⟩ := h.settled ho
  exact ⟨r', _, ⟨k, rfl, hr', (h.calls ho).2, fun j hj => (h.longer (hall j hj)).2⟩, ho⟩

/-- The second statement is completed if the first one is. -/
theorem performs {m m' m₁ : Machine} {action action' : Action Datum (List Stmt)}
    {r : Except Error Result}
    (h : Lockstep inside ended m.session.calls m'.session.calls tag tag')
    (start : inside (m.perform tag action) (m'.perform tag' action'))
    (hp : m.Performs tag action r m₁) :
    ∃ r' m₁', m'.Performs tag' action' r' m₁' ∧ ended m₁ m₁' := h.completes start hp

end Lockstep

/-- Each of two statements is completed if the other one is, and what they come to is related. -/
structure Corresponds (m m' : Machine) (tag tag' : Tag) (action action' : Action Datum (List Stmt))
    (R : Machine → Machine → Except Error Result → Except Error Result → Prop) : Prop where
  forth : ∀ {r m₁}, m.Performs tag action r m₁ →
    ∃ r' m₁', m'.Performs tag' action' r' m₁' ∧ R m₁ m₁' r r'
  back : ∀ {r' m₁'}, m'.Performs tag' action' r' m₁' →
    ∃ r m₁, m.Performs tag action r m₁ ∧ R m₁ m₁' r r'

section Corresponds

variable {m m' : Machine} {tag tag' : Tag} {action action' : Action Datum (List Stmt)}
  {R : Machine → Machine → Except Error Result → Except Error Result → Prop}

theorem Corresponds.symm (h : m.Corresponds m' tag tag' action action' R) :
    m'.Corresponds m tag' tag action' action fun P' P r' r => R P P' r r' := ⟨h.back, h.forth⟩

theorem Corresponds.mono (h : m.Corresponds m' tag tag' action action' R)
    {R' : Machine → Machine → Except Error Result → Except Error Result → Prop}
    (hR : ∀ m₁ m₁' r r', R m₁ m₁' r r' → R' m₁ m₁' r r') :
    m.Corresponds m' tag tag' action action' R' where
  forth hp := by
    obtain ⟨r', m₁', hp', h₁⟩ := h.forth hp
    exact ⟨r', m₁', hp', hR _ _ _ _ h₁⟩
  back hp' := by
    obtain ⟨r, m₁, hp, h₁⟩ := h.back hp'
    exact ⟨r, m₁, hp, hR _ _ _ _ h₁⟩

/-- Two statements that are done at once. -/
theorem corresponds_of_done {σ σ' : Session} {r r' : Except Error Result}
    (hb : m.session.begin action = .done σ r) (hb' : m'.session.begin action' = .done σ' r')
    (hR : R { m with session := σ, settled := some (tag, r) }
      { m' with session := σ', settled := some (tag', r') } r r') :
    m.Corresponds m' tag tag' action action' R where
  forth h := by
    obtain ⟨rfl, rfl⟩ := h.unique (performs_of_done hb tag)
    exact ⟨_, _, performs_of_done hb' tag', hR⟩
  back h := by
    obtain ⟨rfl, rfl⟩ := h.unique (performs_of_done hb' tag')
    exact ⟨_, _, performs_of_done hb tag, hR⟩

/-- Two statements that go on side by side. -/
theorem Lockstep.corresponds {inside ended : Machine → Machine → Prop}
    (h : Lockstep inside ended m.session.calls m'.session.calls tag tag')
    (start : inside (m.perform tag action) (m'.perform tag' action'))
    (hR : ∀ P P' r r', ended P P' → P.settled = some (tag, r) → P'.settled = some (tag', r') →
      R P P' r r') : m.Corresponds m' tag tag' action action' R where
  forth hp := by
    obtain ⟨r', m₁', hp', ho⟩ := h.performs start hp
    exact ⟨r', m₁', hp', hR _ _ _ _ ho (Completes.settled hp) (Completes.settled hp')⟩
  back hp' := by
    obtain ⟨r, m₁, hp, ho⟩ := h.flip.performs start hp'
    exact ⟨r, m₁, hp, hR _ _ _ _ ho (Completes.settled hp) (Completes.settled hp')⟩

end Corresponds

/-! ### The call of a statement -/

/-- A call with a given purpose and tag stands on top of others. -/
def Awaits (m : Machine) (outer : List Call) (purpose : Purpose) (tag : Tag) : Prop :=
  ∃ inner call, m.session.calls = inner ++ call :: outer ∧ call.purpose = purpose ∧ call.tag = tag

/-- The call ends with a result: its body has failed, or has come to its end. -/
def Ends (m : Machine) (outer : List Call) (purpose : Purpose) (tag : Tag) : Prop :=
  ∃ r, m.step.settled = some (tag, r) ∧ m.step.session.calls = outer ∧
    ((∃ e, r = afterError purpose e) ∨
      ∃ σ', m.session.finish purpose = .done σ' r ∧
        m.step.session = { σ' with calls := outer })

/-- A call that has one body only stays until it ends. -/
theorem Awaits.step {m : Machine} {outer : List Call} {purpose : Purpose} {tag : Tag}
    (h : m.Awaits outer purpose tag) (hp : purpose.Steady) :
    m.step.Awaits outer purpose tag ∨ m.Ends outer purpose tag := by
  obtain ⟨inner, call, hcalls, rfl, rfl⟩ := h
  cases m.callCases with
  | same advanced =>
    obtain ⟨inner', call', hc, hpurpose, htag⟩ := advanced.above hcalls
    exact .inl ⟨inner', call', hc, hpurpose, htag⟩
  | fail top below e calls popped settled =>
    cases inner with
    | nil =>
      obtain ⟨rfl, rfl⟩ := List.cons.inj (calls.symm.trans hcalls)
      exact .inr ⟨_, settled, popped, .inl ⟨e, rfl⟩⟩
    | cons first inner =>
      obtain ⟨rfl, rfl⟩ := List.cons.inj (calls.symm.trans hcalls)
      exact .inl ⟨inner, call, popped, rfl, rfl⟩
  | ended top below σ' r calls done session settled =>
    cases inner with
    | nil =>
      obtain ⟨rfl, rfl⟩ := List.cons.inj (calls.symm.trans hcalls)
      exact .inr ⟨r, settled, by rw [session], .inr ⟨σ', done, session⟩⟩
    | cons first inner =>
      obtain ⟨rfl, rfl⟩ := List.cons.inj (calls.symm.trans hcalls)
      exact .inl ⟨inner, call, congrArg Session.calls session, rfl, rfl⟩
  | push m₀ tag s action σ σ' purpose body proceeds eval enter settled session pushed =>
    obtain ⟨inner', call', hc, hpurpose, htag⟩ := proceeds.advanced.above hcalls
    refine .inl ⟨⟨purpose, tag, body, 0, σ.heldBy action⟩ :: inner', call', ?_, hpurpose, htag⟩
    rw [pushed, hc]
    rfl
  | turn top below σ' purpose body calls enter settled session turned =>
    cases inner with
    | nil =>
      -- the call itself goes on with no other body
      obtain ⟨rfl, rfl⟩ := List.cons.inj (calls.symm.trans hcalls)
      obtain ⟨σ₁, r, hd⟩ := hp m.session
      cases hd.symm.trans enter
    | cons first inner =>
      obtain ⟨rfl, rfl⟩ := List.cons.inj (calls.symm.trans hcalls)
      exact .inl ⟨_ :: inner, call, turned, rfl, rfl⟩

/-- The call that a statement waits for is there as long as the statement is in progress. -/
theorem Awaits.run {P : Machine} {tag : Tag} {outer : List Call} {purpose : Purpose}
    (h : P.Awaits outer purpose tag) (hp : purpose.Steady) {k : Nat}
    (hlong : ∀ j ≤ k, outer.length < (Machine.run j P).session.calls.length) :
    (Machine.run k P).Awaits outer purpose tag := by
  induction k with
  | zero => exact h
  | succ k ih =>
    rw [run_step]
    refine ((ih fun j hj => hlong j (Nat.le_succ_of_le hj)).step hp).resolve_right ?_
    rintro ⟨r, -, hc, -⟩
    have hlt := hlong (k + 1) (Nat.le_refl _)
    rw [run_step, hc] at hlt
    exact Nat.lt_irrefl _ hlt

/-- A statement that waited for a body has failed, or the end of the body gave its result. -/
theorem Completes.ends {P m' : Machine} {tag : Tag} {outer : List Call} {r : Except Error Result}
    (h : P.Completes tag outer r m') {purpose : Purpose} (ha : P.Awaits outer purpose tag)
    (hp : purpose.Steady) :
    (∃ e, r = afterError purpose e) ∨ ∃ σ' σ'' : Session, σ'.finish purpose = .done σ'' r ∧
      m'.session = { σ'' with calls := outer } := by
  obtain ⟨n, rfl, hsettled, hcalls, hlong⟩ := h
  cases n with
  | zero =>
    obtain ⟨inner, call, hc, -⟩ := ha
    rw [run_zero, hc] at hcalls
    exact absurd (congrArg List.length hcalls) (by simp; omega)
  | succ n =>
    -- the call is there until the last step, which ends it
    rcases (ha.run hp fun j hj => hlong j (Nat.lt_succ_of_le hj)).step hp with
      ⟨inner, call, hc, -⟩ | ⟨r', hs, hc, hr⟩
    · rw [run_step, hc] at hcalls
      have hlen := congrArg List.length hcalls
      simp only [List.length_append, List.length_cons] at hlen
      omega
    · rw [run_step, hs] at hsettled
      cases hsettled
      rw [run_step]
      rcases hr with he | ⟨σ', hf, hσ⟩
      · exact .inl he
      · exact .inr ⟨_, σ', hf, hσ⟩

section Enter

variable {m : Machine} {tag : Tag} {action : Action Datum (List Stmt)} {σ : Session}
  {purpose : Purpose} {body : List Stmt}
  (hb : m.session.begin action = .enter σ purpose body) (hp : purpose.Steady)
include hb

theorem awaits_perform : (m.perform tag action).Awaits m.session.calls purpose tag := by
  rw [perform_enter hb]
  exact ⟨[], _, rfl, rfl, rfl⟩

include hp

theorem awaits_of_longer {k : Nat} (hlong : ∀ j ≤ k,
      m.session.calls.length < (run j (m.perform tag action)).session.calls.length) :
    (run k (m.perform tag action)).Awaits m.session.calls purpose tag :=
  (awaits_perform hb).run hp hlong

theorem Performs.ends {m' : Machine} {r : Except Error Result} (h : m.Performs tag action r m') :
    (∃ e, r = afterError purpose e) ∨ ∃ σ' σ'' : Session, σ'.finish purpose = .done σ'' r ∧
      m'.session = { σ'' with calls := m.session.calls } :=
  Completes.ends h (awaits_perform hb) hp

end Enter

end Machine

end RuleTree
