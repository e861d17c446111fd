import RuleTree.Proofs.History.Run

/-!
# What a step does to the calls in progress

* `Machine.Proceeds`: the state in which the next statement of a body, or of the script, begins;
* `Machine.Turn`, `Machine.turn`: the ways a step can go, told exactly;
* `Session.calls_begin`, `Session.calls_finish`: beginning a statement and ending a body leave the
  calls alone, so that only the machine itself pushes and pops them;
* `Machine.perform`, `Machine.perform_done`, `Machine.perform_enter`, `Machine.registries_perform`: a
  statement that begins, once its arguments are worked out;
* `Machine.commence`: what becomes of a start;
* `Advanced`: calls of which the innermost may have moved on in its body;
* `Machine.CallCases`, `Machine.callCases`: what a step makes of the calls in progress.

A step works on the innermost call only. Those below it stay as they are until it is gone.
-/

namespace RuleTree

/-- What calls are going to attach depends on their purposes only. -/
theorem pendingOf_congr {calls calls' : List Call}
    (h : calls.map Call.purpose = calls'.map Call.purpose) :
    pendingOf calls = pendingOf calls' := by
  have key (l : List Call) : pendingOf l = (l.map Call.purpose).filterMap Purpose.pending? := by
    rw [List.filterMap_map]
    rfl
  rw [key, key, h]

/-- Being the same calls, but that the innermost may have moved on in its body. -/
inductive Advanced : List Call → List Call → Prop
  | same (calls : List Call) : Advanced calls calls
  | head (call : Call) (rest : List Stmt) (index : Nat) (below : List Call) :
    Advanced (call :: below) ({ call with rest, index } :: below)

namespace Advanced

variable {calls calls' : List Call}

theorem purposes (h : Advanced calls calls') :
    calls'.map Call.purpose = calls.map Call.purpose := by
  cases h <;> rfl

/-- What stands below a call stays below it. -/
theorem above (h : Advanced calls calls') {inner outer : List Call} {call : Call}
    (hc : calls = inner ++ call :: outer) : ∃ inner' call', calls' = inner' ++ call' :: outer ∧
      call'.purpose = call.purpose ∧ call'.tag = call.tag := by
  cases h with
  | same => exact ⟨inner, call, hc, rfl, rfl⟩
  | head top rest index below =>
    cases inner with
    | nil =>
      obtain ⟨rfl, rfl⟩ := List.cons.inj hc
      exact ⟨[], _, rfl, rfl, rfl⟩
    | cons first inner =>
      obtain ⟨rfl, rfl⟩ := List.cons.inj hc
      exact ⟨_ :: inner, call, rfl, rfl, rfl⟩

end Advanced

namespace Session

/-- Beginning a statement leaves the calls in progress alone. -/
theorem calls_begin (σ : Session) (action : Action Datum (List Stmt)) :
    (σ.begin action).session.calls = σ.calls := by
  cases hw : action.walks with
  | false => exact (σ.does_begin action hw).turns.calls
  | true => exact (σ.begin_walks hw).2.2.2

/-- Ending a body leaves the calls in progress alone. -/
theorem calls_finish (σ : Session) (purpose : Purpose) :
    (σ.finish purpose).session.calls = σ.calls := by
  cases hp : purpose.pending? with
  | none => exact (σ.does_finish purpose hp).turns.calls
  | some c =>
    cases purpose with
    | select child fragment className => rfl
    | _ => cases hp

end Session

namespace Machine

/-- The state in which the next statement begins: it is taken off the body of the innermost call, or
off the script if there is none. -/
inductive Proceeds (m : Machine) : Machine → Tag → Stmt → Prop
  | script {s : Stmt} {rest : List Stmt} (calls : m.session.calls = [])
    (steps : m.steps = s :: rest) :
    Proceeds m { m with steps := rest, index := m.index + 1 } (tagOf [m.index] s) s
  | body {call : Call} {below : List Call} {s : Stmt} {rest : List Stmt}
    (calls : m.session.calls = call :: below) (statements : call.rest = s :: rest) :
    Proceeds m
      { m with session := { m.session with
          calls := { call with rest, index := call.index + 1 } :: below } }
      (tagOf (call.tag.path ++ [call.index]) s) s

/-- The ways a step can go: a completed statement is settled; the next statement begins; the body of
the innermost call ends; or nothing is left to do. -/
inductive Turn (m : Machine) : Prop
  | settle {tag : Tag} {r : Except Error Result} (settled : m.settled = some (tag, r))
    (step : m.step = m.settle tag r)
  | begin {m₀ : Machine} {tag : Tag} {s : Stmt} (settled : m.settled = none)
    (proceeds : m.Proceeds m₀ tag s) (step : m.step = m₀.beginStmt tag s.action)
  | finish {call : Call} {below : List Call} (settled : m.settled = none)
    (calls : m.session.calls = call :: below) (rest : call.rest = [])
    (step : m.step = m.finishCall call)
  | idle (settled : m.settled = none) (calls : m.session.calls = []) (steps : m.steps = [])
    (step : m.step = m)

theorem turn (m : Machine) : m.Turn := by
  cases hs : m.settled with
  | some p =>
    obtain ⟨tag, r⟩ := p
    exact .settle hs (step_of_settled hs)
  | none =>
    cases hc : m.session.calls with
    | nil =>
      cases hm : m.steps with
      | nil => exact .idle hs hc hm (step_of_idle hs hc hm)
      | cons s rest => exact .begin hs (.script hc hm) (step_of_steps hs hc hm)
    | cons call below =>
      cases hr : call.rest with
      | nil => exact .finish hs hc hr (step_of_ended hs hc hr)
      | cons s rest => exact .begin hs (.body hc hr) (step_of_rest hs hc hr)

theorem Proceeds.settled {m m₀ : Machine} {tag : Tag} {s : Stmt} (h : m.Proceeds m₀ tag s) :
    m₀.settled = m.settled := by
  cases h <;> rfl

theorem Proceeds.store {m m₀ : Machine} {tag : Tag} {s : Stmt} (h : m.Proceeds m₀ tag s) :
    m₀.session.store = m.session.store := by
  cases h <;> rfl

theorem Proceeds.advanced {m m₀ : Machine} {tag : Tag} {s : Stmt} (h : m.Proceeds m₀ tag s) :
    Advanced m.session.calls m₀.session.calls := by
  cases h with
  | script => exact .same _
  | body calls =>
    rw [calls]
    exact .head ..

theorem Proceeds.purposes {m m₀ : Machine} {tag : Tag} {s : Stmt} (h : m.Proceeds m₀ tag s) :
    m₀.session.calls.map Call.purpose = m.session.calls.map Call.purpose := h.advanced.purposes

/-! ### Statements that begin -/

/-- Begin a statement whose arguments are worked out. -/
def perform (m : Machine) (tag : Tag) (action : Action Datum (List Stmt)) : Machine :=
  match m.session.begin action with
  | .done session result => { m with session, settled := some (tag, result) }
  | .enter session purpose body =>
    let call := ⟨purpose, tag, body, 0, m.session.heldBy action⟩
    { m with session := { session with calls := call :: session.calls } }

/-- Go on from a start whose call would hold some objects. -/
def commence (m : Machine) (tag : Tag) (held : List Identity) : Start → Machine
  | .done session result => { m with session, settled := some (tag, result) }
  | .enter session purpose body =>
    { m with session := { session with
        calls := ⟨purpose, tag, body, 0, held⟩ :: session.calls } }

theorem perform_eq_commence (m : Machine) (tag : Tag) (action : Action Datum (List Stmt)) :
    m.perform tag action =
      m.commence tag (m.session.heldBy action) (m.session.begin action) := by
  unfold perform
  cases m.session.begin action <;> rfl

theorem perform_done {m : Machine} {action : Action Datum (List Stmt)} {σ : Session}
    {r : Except Error Result} (h : m.session.begin action = .done σ r) (tag : Tag) :
    m.perform tag action = { m with session := σ, settled := some (tag, r) } := by
  unfold perform
  rw [h]

theorem perform_enter {m : Machine} {action : Action Datum (List Stmt)} {σ : Session}
    {purpose : Purpose} {body : List Stmt} (h : m.session.begin action = .enter σ purpose body)
    (tag : Tag) :
    m.perform tag action = { m with session := { σ with
      calls := ⟨purpose, tag, body, 0, m.session.heldBy action⟩ :: m.session.calls } } := by
  have hc := m.session.calls_begin action
  rw [h] at hc
  unfold perform
  rw [h]
  simp only
  rw [show σ.calls = m.session.calls from hc]

/-- A statement that begins does to the registries what its beginning does. -/
theorem registries_perform (m : Machine) (tag : Tag) (action : Action Datum (List Stmt)) :
    (m.perform tag action).session.registries = (m.session.begin action).session.registries ∧
      (m.perform tag action).session.registryNames =
        (m.session.begin action).session.registryNames := by
  unfold perform
  cases m.session.begin action <;> exact ⟨rfl, rfl⟩

/-- A statement begins once its arguments are worked out, and fails if they cannot be. -/
theorem beginStmt_eq (m : Machine) (tag : Tag) (action : Action Expr (List Stmt)) :
    m.beginStmt tag action =
      match Session.evalAction action m.session with
      | .error e => { m with settled := some (tag, .error e) }
      | .ok (action, σ) => { m with session := σ }.perform tag action := by
  unfold beginStmt perform
  cases Session.evalAction action m.session with
  | error e => rfl
  | ok p => rfl

/-! ### The calls after a step -/

/-- What a step makes of the calls in progress. -/
inductive CallCases (m : Machine) : Prop
  /-- no call begins or ends -/
  | same (advanced : Advanced m.session.calls m.step.session.calls)
  /-- the body of the innermost call has failed -/
  | fail (call : Call) (below : List Call) (e : Error) (calls : m.session.calls = call :: below)
    (popped : m.step.session.calls = below)
    (settled : m.step.settled = some (call.tag, afterError call.purpose e))
  /-- the body of the innermost call has ended, and the call with it -/
  | ended (call : Call) (below : List Call) (σ' : Session) (r : Except Error Result)
    (calls : m.session.calls = call :: below) (done : m.session.finish call.purpose = .done σ' r)
    (session : m.step.session = { σ' with calls := below })
    (settled : m.step.settled = some (call.tag, r))
  /-- a statement that began has a call of its own -/
  | push (m₀ : Machine) (tag : Tag) (s : Stmt) (action : Action Datum (List Stmt)) (σ σ' : Session)
    (purpose : Purpose) (body : List Stmt) (proceeds : m.Proceeds m₀ tag s)
    (eval : Session.evalAction s.action m₀.session = .ok (action, σ))
    (enter : σ.begin action = .enter σ' purpose body) (settled : m.step.settled = none)
    (session : m.step.session = { σ' with calls := m.step.session.calls })
    (pushed : m.step.session.calls =
      ⟨purpose, tag, body, 0, σ.heldBy action⟩ :: m₀.session.calls)
  /-- the innermost call goes on with another body -/
  | turn (call : Call) (below : List Call) (σ' : Session) (purpose : Purpose) (body : List Stmt)
    (calls : m.session.calls = call :: below)
    (enter : m.session.finish call.purpose = .enter σ' purpose body) (settled : m.step.settled = none)
    (session : m.step.session = { σ' with calls := m.step.session.calls })
    (turned : m.step.session.calls = { call with purpose, rest := body, index := 0 } :: below)

theorem callCases_of_begin {m m₀ : Machine} {tag : Tag} {s : Stmt} (hs : m.settled = none)
    (h : m.Proceeds m₀ tag s) (hstep : m.step = m₀.beginStmt tag s.action) : CallCases m := by
  rw [beginStmt_eq] at hstep
  cases he : Session.evalAction s.action m₀.session with
  | error e =>
    rw [he] at hstep
    exact .same (hstep ▸ h.advanced)
  | ok p =>
    obtain ⟨action, σ⟩ := p
    rw [he] at hstep
    simp only at hstep
    have hσ : σ.calls = m₀.session.calls := ((Session.keeps_evalAction s.action).beside he).calls
    have hc := σ.calls_begin action
    cases hb : σ.begin action with
    | done σ' r =>
      rw [hb] at hc
      rw [perform_done hb] at hstep
      refine .same ?_
      rw [hstep]
      show Advanced _ σ'.calls
      rw [show σ'.calls = m₀.session.calls from hc.trans hσ]
      exact h.advanced
    | enter σ' purpose body =>
      rw [perform_enter hb] at hstep
      refine .push m₀ tag s action σ σ' purpose body h he hb ?_ ?_ ?_
      · rw [hstep]
        exact h.settled.trans hs
      · rw [hstep]
      · rw [hstep]
        show _ :: σ.calls = _
        rw [hσ]

theorem callCases (m : Machine) : CallCases m := by
  cases m.turn with
  | @settle tag r settled step =>
    have hk : (keepResult m.session tag r).calls = m.session.calls := by
      unfold keepResult
      split <;> rfl
    unfold Machine.settle at step
    simp only at step
    split at step
    · rename_i e call below _ hc
      refine .fail call below e (hk.symm.trans hc) ?_ ?_
      · rw [step]
      · rw [step]
    · refine .same ?_
      rw [step]
      show Advanced _ (keepResult m.session tag r).calls
      rw [hk]
      exact .same _
  | begin settled proceeds step => exact callCases_of_begin settled proceeds step
  | @finish call below settled calls rest step =>
    have hc := m.session.calls_finish call.purpose
    unfold finishCall at step
    cases hf : m.session.finish call.purpose with
    | done σ' r =>
      rw [hf] at step hc
      refine .ended call below σ' r calls hf ?_ ?_
      · rw [step]
        show { σ' with calls := σ'.calls.tail } = _
        rw [show σ'.calls = call :: below from hc.trans calls, List.tail_cons]
      · rw [step]
    | enter σ' purpose body =>
      rw [hf] at step hc
      refine .turn call below σ' purpose body calls hf ?_ ?_ ?_
      · rw [step]
        exact settled
      · rw [step]
      · rw [step]
        show _ :: σ'.calls.tail = _
        rw [show σ'.calls = call :: below from hc.trans calls, List.tail_cons]
  | idle _ _ _ step =>
    refine .same ?_
    rw [step]
    exact .same _

end Machine

end RuleTree
