import RuleTree.Machine
import RuleTree.Proofs.History.Exact

/-!
# The history of a run

* `Task`, `Machine.task`: what the next step of a machine does, with the arguments of a statement
  that begins worked out;
* `Machine.events`, `Machine.history`: the events of the next step, and those of several steps;
* `Session.pending`: the selected rule sets whose generators are running, the innermost first;
* `Move`, `Machine.move_step`: what a step does to the store and to what is pending: nothing is
  listed but a rule set that was pending, and nothing is pending but what was made for it;
* `Machine.trail_history`: the store is what its history says;
* `Machine.run_preserves`: what every move keeps true is true after any number of steps.
-/

namespace RuleTree

/-- What the next step of a machine does. -/
inductive Task
  /-- keep and record the result of a completed statement -/
  | settle (tag : Tag) (r : Except Error Result)
  /-- begin a statement in a session, with all its arguments worked out -/
  | begin (σ : Session) (tag : Tag) (action : Action Datum (List Stmt))
  /-- give up a statement in a session, since an argument cannot be worked out -/
  | refuse (σ : Session) (tag : Tag) (e : Error)
  /-- end the body of a call -/
  | finish (call : Call)
  /-- nothing, for nothing is left to do -/
  | rest

/-- The selected rule sets that calls are going to attach. -/
def pendingOf (calls : List Call) : List NodeId := calls.filterMap fun c => c.purpose.pending?

theorem pendingOf_cons (call : Call) (below : List Call) :
    pendingOf (call :: below) = call.purpose.pending?.toList ++ pendingOf below := by
  unfold pendingOf
  cases h : call.purpose.pending? with
  | none => simp [h]
  | some c => simp [h]

/-- What is pending in a session: the selected rule sets that are still being filled. -/
def Session.pending (σ : Session) : List NodeId := pendingOf σ.calls

/-- Having the same rule sets, iterations and pending rule sets. -/
structure Session.Alike (σ σ' : Session) : Prop where
  store : σ'.store = σ.store
  iterations : σ'.iterations = σ.iterations
  pending : σ'.pending = σ.pending

/-- Leading to a session in which the rule set that is waited for is pending on top of others. -/
structure Start.LeadsTo (st : Start) (others : List NodeId) (σ : Session) : Prop where
  store : σ.store = st.session.store
  iterations : σ.iterations = st.session.iterations
  pending : σ.pending = st.pending?.toList ++ others

namespace Machine

/-- The task of a statement. -/
def taskOf (σ : Session) (tag : Tag) (action : Action Expr (List Stmt)) : Task :=
  match Session.evalAction action σ with
  | .error e => .refuse σ tag e
  | .ok (action, σ) => .begin σ tag action

/-- What the next step does. -/
def task (m : Machine) : Task :=
  match m.settled with
  | some (tag, r) => .settle tag r
  | none =>
    match m.session.calls with
    | [] =>
      match m.steps with
      | [] => .rest
      | s :: _ => taskOf m.session (tagOf [m.index] s) s.action
    | call :: below =>
      match call.rest with
      | s :: rest =>
        taskOf { m.session with calls := { call with rest, index := call.index + 1 } :: below }
          (tagOf (call.tag.path ++ [call.index]) s) s.action
      | [] => .finish call

/-- What the next step does to rule sets. -/
def events (m : Machine) : List Event :=
  match m.task with
  | .begin σ _ action => σ.deeds action
  | .finish call => m.session.finishDeeds call.purpose
  | _ => []

/-- What the next steps do to rule sets, in order. -/
def history : Nat → Machine → List Event
  | 0, _ => []
  | steps + 1, m => m.events ++ history steps m.step

@[simp] theorem history_zero (m : Machine) : history 0 m = [] := rfl

theorem history_add (a b : Nat) (m : Machine) :
    history (a + b) m = history a m ++ history b (run a m) := by
  induction a generalizing m with
  | zero => rw [Nat.zero_add, run_zero, history_zero, List.nil_append]
  | succ a ih => rw [Nat.succ_add, history, ih, run_succ, history, List.append_assoc]

/-! ### The session after a step -/

/-- What the next step of a machine does to rule sets, iterations and pending rule sets: nothing
but giving up some that were pending; or what a statement does that begins; or what a statement does
whose body has ended and which is no longer pending. -/
inductive StepCases (m : Machine) : Prop
  | still (task : ∀ σ tag action, m.task ≠ .begin σ tag action) (events : m.events = [])
    (store : m.step.session.store = m.session.store)
    (iterations : m.step.session.iterations = m.session.iterations)
    (pending : m.step.session.pending.Sublist m.session.pending)
  | begun (σ : Session) (tag : Tag) (action : Action Datum (List Stmt))
    (task : m.task = .begin σ tag action) (alike : m.session.Alike σ)
    (leads : (σ.begin action).LeadsTo (σ.begin action).session.pending m.step.session)
    (answers : ∀ r, (σ.begin action).result? = some r → m.step.settled = some (tag, r))
  | finished (call : Call) (below : List Call) (task : m.task = .finish call)
    (calls : m.session.calls = call :: below)
    (leads : (m.session.finish call.purpose).LeadsTo
      (pendingOf (m.session.finish call.purpose).session.calls.tail) m.step.session)

/-- A step that neither begins a statement nor ends a body. -/
theorem StepCases.of_idle {m m' : Machine} (hstep : m.step = m')
    (hb : ∀ σ tag action, m.task ≠ .begin σ tag action) (hf : ∀ call, m.task ≠ .finish call)
    (store : m'.session.store = m.session.store)
    (iterations : m'.session.iterations = m.session.iterations)
    (pending : m'.session.pending.Sublist m.session.pending) : StepCases m := by
  subst hstep
  have he : m.events = [] := by
    unfold events
    split
    · rename_i h
      exact absurd h (hb _ _ _)
    · rename_i h
      exact absurd h (hf _)
    · rfl
  exact .still hb he store iterations pending

/-- A statement that begins in a session like that of the machine. -/
theorem stepCases_of_taskOf {m : Machine} (m' : Machine) {tag : Tag}
    {action : Action Expr (List Stmt)} (ha : m.session.Alike m'.session)
    (htask : m.task = taskOf m'.session tag action) (hstep : m.step = m'.beginStmt tag action) :
    StepCases m := by
  unfold taskOf at htask
  unfold beginStmt at hstep
  cases he : Session.evalAction action m'.session with
  | error e =>
    rw [he] at htask hstep
    exact .of_idle hstep (by simp [htask]) (by simp [htask]) ha.store ha.iterations
      (ha.pending ▸ List.Sublist.refl _)
  | ok p =>
    obtain ⟨evaluated, σ⟩ := p
    rw [he] at htask hstep
    have hb := (Session.keeps_evalAction action).beside he
    have hp : σ.pending = m'.session.pending := by unfold Session.pending; rw [hb.calls]
    refine .begun σ tag evaluated htask
      ⟨hb.store.trans ha.store, hb.iterations.trans ha.iterations, hp.trans ha.pending⟩ ?_ ?_
    · rw [hstep]
      simp only
      cases σ.begin evaluated with
      | done σ' result => exact ⟨rfl, rfl, rfl⟩
      | enter σ' purpose body => exact ⟨rfl, rfl, pendingOf_cons ..⟩
    · intro r hr
      rw [hstep]
      simp only
      cases hs : σ.begin evaluated with
      | done σ' result =>
        rw [hs] at hr
        cases hr
        rfl
      | enter σ' purpose body =>
        rw [hs] at hr
        cases hr

theorem pending_settle (m : Machine) (tag : Tag) (r : Except Error Result) :
    (m.settle tag r).session.pending.Sublist m.session.pending := by
  have hk : (keepResult m.session tag r).calls = m.session.calls := by
    unfold keepResult
    split <;> rfl
  unfold settle Session.pending
  simp only
  split
  · rename_i call below _ hc
    have hc' : m.session.calls = call :: below := hk.symm.trans hc
    rw [hc', pendingOf_cons]
    exact List.sublist_append_right _ _
  · show (pendingOf (keepResult m.session tag r).calls).Sublist _
    simp only [hk, List.Sublist.refl]

theorem store_settle (m : Machine) (tag : Tag) (r : Except Error Result) :
    (m.settle tag r).session.store = m.session.store ∧
      (m.settle tag r).session.iterations = m.session.iterations := by
  have hk : (keepResult m.session tag r).store = m.session.store ∧
      (keepResult m.session tag r).iterations = m.session.iterations := by
    unfold keepResult
    split <;> exact ⟨rfl, rfl⟩
  unfold settle
  simp only
  split <;> exact hk

theorem stepCases (m : Machine) : StepCases m := by
  cases hs : m.settled with
  | some p =>
    obtain ⟨tag, r⟩ := p
    -- a failure gives up the call that the statement belongs to, and so what it was filling
    have htask : m.task = .settle tag r := by unfold task; rw [hs]
    obtain ⟨hstore, hiterations⟩ := store_settle m tag r
    exact .of_idle (step_of_settled hs) (by simp [htask]) (by simp [htask]) hstore hiterations
      (pending_settle m tag r)
  | none =>
    cases hc : m.session.calls with
    | nil =>
      cases hm : m.steps with
      | nil =>
        have htask : m.task = .rest := by unfold task; simp only [hs, hc, hm]
        exact .of_idle (step_of_idle hs hc hm) (by simp [htask]) (by simp [htask]) rfl rfl
          (List.Sublist.refl _)
      | cons s rest =>
        let m' : Machine := { m with steps := rest, index := m.index + 1 }
        have htask : m.task = taskOf m'.session (tagOf [m.index] s) s.action := by
          unfold task
          simp only [hs, hc, hm, m']
        exact stepCases_of_taskOf m' ⟨rfl, rfl, rfl⟩ htask (step_of_steps hs hc hm)
    | cons call below =>
      cases hr : call.rest with
      | nil =>
        have htask : m.task = .finish call := by unfold task; simp only [hs, hc, hr]
        refine .finished call below htask hc ?_
        rw [step_of_ended hs hc hr]
        unfold finishCall
        cases m.session.finish call.purpose with
        | done σ result => exact ⟨rfl, rfl, rfl⟩
        | enter σ purpose body => exact ⟨rfl, rfl, pendingOf_cons ..⟩
      | cons s rest =>
        -- the call moves on to its next statement, and is still filling the same rule set
        let call' : Call := { call with rest, index := call.index + 1 }
        let m' : Machine := { m with session := { m.session with calls := call' :: below } }
        have hp : m'.session.pending = m.session.pending := by
          unfold Session.pending
          rw [hc, pendingOf_cons, pendingOf_cons]
        have htask : m.task =
            taskOf m'.session (tagOf (call.tag.path ++ [call.index]) s) s.action := by
          unfold task
          simp only [hs, hc, hr, m', call']
        exact stepCases_of_taskOf m' ⟨rfl, rfl, hp⟩ htask (step_of_rest hs hc hr)

end Machine

/-! ### What a step does to what is pending -/

/-- What a step does to a store and to what is pending. Rule sets are only listed by the first that
is pending, and only what was just made by a selection becomes pending. -/
inductive Move : Store → List NodeId → List Event → Store → List NodeId → Prop
  /-- nothing is listed, and some that were pending are given up -/
  | quiet {s s' : Store} {pending pending' : List NodeId} {events : List Event}
    (trail : s.Trail events s') (quiet : ∀ e ∈ events, e.lists = false)
    (sub : pending'.Sublist pending) : Move s pending events s' pending'
  /-- nothing is listed, and a rule set that was just selected becomes pending -/
  | enter {s s' : Store} {pending : List NodeId} {events : List Event} {c : NodeId}
    (trail : s.Trail events s') (quiet : ∀ e ∈ events, e.lists = false)
    (made : MadeBySelection events c) : Move s pending events s' (c :: pending)
  /-- the first rule set that is pending is listed by its parent, and pending no longer -/
  | attach {s : Store} {pending : List NodeId} {c p : NodeId} (parent : (s.get c).parent = some p) :
    Move s (c :: pending) [.selected p c] (s.attach c) pending

namespace Move

variable {s s' : Store} {pending pending' : List NodeId} {events : List Event}

theorem trail (h : Move s pending events s' pending') : s.Trail events s' := by
  cases h with
  | quiet trail => exact trail
  | enter trail => exact trail
  | attach parent => exact .single (.selected _ _ parent)

/-- A start that does what its events say, in a session that it led to, is a move. -/
theorem of_start {σ : Session} {st : Start} (trail : s.Trail events st.session.store)
    (quiet : ∀ e ∈ events, e.lists = false)
    (waits : ∀ c, st.pending? = some c → MadeBySelection events c)
    (leads : st.LeadsTo pending σ) : Move s pending events σ.store σ.pending := by
  have hp := leads.pending
  rw [leads.store]
  cases hc : st.pending? with
  | none =>
    rw [hc] at hp
    exact .quiet trail quiet (hp ▸ .refl _)
  | some c =>
    rw [hc] at hp
    rw [hp]
    exact .enter trail quiet (waits c hc)

end Move

namespace Session

/-- What beginning and advancing iterations does: nothing but to iterations. -/
theorem begin_walks (σ : Session) {action : Action Datum (List Stmt)} (hw : action.walks = true) :
    σ.deeds action = [] ∧ (σ.begin action).pending? = none ∧
      (σ.begin action).session.store = σ.store ∧ (σ.begin action).session.calls = σ.calls := by
  cases action with
  | iterate t walk it =>
    refine ⟨rfl, ?_⟩
    simp only [begin, iterate]
    split <;> exact ⟨rfl, rfl, rfl⟩
  | advance it count =>
    refine ⟨rfl, ?_⟩
    simp only [begin, advance]
    split <;> exact ⟨rfl, rfl, rfl⟩
  | _ => cases hw

end Session

namespace Machine

/-- The end of the generator of a selection is a move. -/
theorem move_select {m : Machine} {purpose : Purpose} {c : NodeId} {σ : Session} {call : Call}
    {below : List Call} (hp : purpose.pending? = some c)
    (leads : (m.session.finish purpose).LeadsTo
      (pendingOf (m.session.finish purpose).session.calls.tail) σ)
    (calls : m.session.calls = call :: below) :
    Move m.session.store ((some c).toList ++ pendingOf below) (m.session.finishDeeds purpose)
      σ.store σ.pending := by
  cases purpose with
  | select child fragment className =>
    cases hp
    have hs : σ.store = m.session.store.attach c := leads.store
    have hc : σ.pending = pendingOf below := by
      rw [leads.pending]
      show [] ++ pendingOf m.session.calls.tail = _
      rw [calls, List.tail_cons, List.nil_append]
    rw [hs, hc]
    unfold Session.finishDeeds
    simp only
    cases h : (m.session.store.get c).parent with
    | some p => exact .attach h
    | none =>
      -- nothing that was selected is without a parent, but here that need not be known
      rw [Store.attach_of_parent_none h]
      exact .quiet (.nil _) (by simp) (List.sublist_append_right _ _)
  | _ => cases hp

/-- Every step is a move. -/
theorem move_step (m : Machine) :
    Move m.session.store m.session.pending m.events m.step.session.store
      m.step.session.pending := by
  cases stepCases m with
  | still _ events store _ pending =>
    rw [events, store]
    exact .quiet (.nil _) (by simp) pending
  | begun σ tag action task alike leads _ =>
    have he : m.events = σ.deeds action := by rw [events, task]
    rw [he, ← alike.store, ← alike.pending]
    cases hw : action.walks with
    | false =>
      have hd := σ.does_begin action hw
      have hp : (σ.begin action).session.pending = σ.pending :=
        congrArg pendingOf hd.turns.calls
      exact .of_start hd.turns.trail hd.turns.quiet hd.waits (hp ▸ leads)
    | true =>
      obtain ⟨hd, hn, hs, hc⟩ := Session.begin_walks σ hw
      have hp : (σ.begin action).session.pending = σ.pending := congrArg pendingOf hc
      rw [hd]
      refine .of_start (hs ▸ .nil _) (by simp) (fun c hc => ?_) (hp ▸ leads)
      rw [hn] at hc
      cases hc
  | finished call below task calls leads =>
    have he : m.events = m.session.finishDeeds call.purpose := by rw [events, task]
    have hm : m.session.pending = call.purpose.pending?.toList ++ pendingOf below := by
      rw [Session.pending, calls, pendingOf_cons]
    rw [he, hm]
    cases hp : call.purpose.pending? with
    | none =>
      have hd := m.session.does_finish call.purpose hp
      have hb : pendingOf (m.session.finish call.purpose).session.calls.tail = pendingOf below := by
        rw [hd.turns.calls, calls, List.tail_cons]
      exact .of_start hd.turns.trail hd.turns.quiet hd.waits (hb ▸ leads)
    | some c => exact move_select hp leads calls

/-- The store is what the history says. -/
theorem trail_history (k : Nat) (m : Machine) :
    m.session.store.Trail (history k m) (run k m).session.store := by
  induction k generalizing m with
  | zero => exact .nil _
  | succ k ih =>
    rw [run_succ]
    exact m.move_step.trail.append (ih m.step)

/-- What every move keeps true of the events so far, the store and what is pending is true after any
number of steps. -/
theorem run_preserves {P : List Event → Store → List NodeId → Prop}
    (step : ∀ {h events : List Event} {s s' : Store} {pending pending' : List NodeId},
      P h s pending → Move s pending events s' pending' → P (h ++ events) s' pending')
    {m : Machine} {h : List Event} (start : P h m.session.store m.session.pending) (k : Nat) :
    P (h ++ history k m) (run k m).session.store (run k m).session.pending := by
  induction k generalizing m h with
  | zero => simpa using start
  | succ k ih =>
    rw [run_succ, history, ← List.append_assoc]
    exact ih (step start m.move_step)

end Machine

end RuleTree
