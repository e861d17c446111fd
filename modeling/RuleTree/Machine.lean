import RuleTree.Session.Begin

/-!
# Running scripts

A machine runs a script one step at a time: it begins a statement, ends a body, or records what a
completed statement came to.

* `Machine`: the session, the remaining steps of the script, and the statement just completed;
* `Machine.step`, `Machine.run`, `Machine.finished`: one step, any number of steps, and the end.

An error ends the body that it was raised in, and the statement that ran this body fails with the
same error, and so on up to an attempt, which catches it, or to a step of the script itself, after
which the next step runs.
-/

namespace RuleTree

/-- A state of a running script. -/
structure Machine where
  session : Session
  steps : List Stmt
  index : Nat
  settled : Option (Tag × Except Error Result)

namespace Machine

/-- The state before the first step of a script. -/
def load (s : Script) : Machine where
  session := .start s.generators s.logs
  steps := s.steps
  index := 0
  settled := none

/-- Whether nothing is left to do. -/
def finished (m : Machine) : Bool :=
  m.settled.isNone && m.session.calls.isEmpty && m.steps.isEmpty

/-- Where the result of a statement belongs. -/
def tagOf (path : Path) (s : Stmt) : Tag := ⟨path, s.handle, s.saved⟩

/-- Keep a result under the names given for it: a rule set under the handle, any result as saved. -/
def keep (σ : Session) (tag : Tag) (r : Result) : Session :=
  let handles := match tag.handle, r with
    | some name, .value (.node n) => σ.handles.insert name n
    | _, _ => σ.handles
  let saved := match tag.saved with
    | some name => σ.saved.insert name r.datum
    | none => σ.saved
  { σ with handles, saved }

/-- Keep the result of a statement, if it has one. -/
def keepResult (σ : Session) (tag : Tag) (r : Except Error Result) : Session :=
  match r with
  | .ok result => keep σ tag result
  | .error _ => σ

/-- Record what is told of a completed statement. -/
def record (σ : Session) (tag : Tag) (told : Except Error Picture) : Session :=
  { σ with trace := σ.trace.push ⟨tag.path, told⟩ }

/-- The result of a statement whose body ended with an error. -/
def afterError (purpose : Purpose) (e : Error) : Except Error Result :=
  match purpose with
  | .attempt => .ok (.caught (some e))
  | _ => .error e

/-- Keep the result of a completed statement and record what is told of it. If it failed, or its
result cannot be told, the statement that ran its body is completed too. -/
def settle (m : Machine) (tag : Tag) (r : Except Error Result) : Machine :=
  let σ := keepResult m.session tag r
  let told := r.bind (·.told σ.views)
  let σ := record σ tag told
  match told, σ.calls with
  | .error e, call :: below =>
    { m with
      session := { σ with calls := below }
      settled := some (call.tag, afterError call.purpose e) }
  | _, _ => { m with session := σ, settled := none }

/-- Begin the statement with a given tag: work out its arguments and do what it says. -/
def beginStmt (m : Machine) (tag : Tag) (action : Action Expr (List Stmt)) : Machine :=
  match Session.evalAction action m.session with
  | .error e => { m with settled := some (tag, .error e) }
  | .ok (action, σ) =>
    match σ.begin action with
    | .done session result => { m with session, settled := some (tag, result) }
    | .enter session purpose body =>
      let call := ⟨purpose, tag, body, 0, σ.heldBy action⟩
      { m with session := { session with calls := call :: session.calls } }

/-- End the body of a call, the innermost of those in progress. The call may go on with another
body, which begins like the first one. -/
def finishCall (m : Machine) (call : Call) : Machine :=
  match m.session.finish call.purpose with
  | .done session result =>
    { m with
      session := { session with calls := session.calls.tail }
      settled := some (call.tag, result) }
  | .enter session purpose body =>
    let call := { call with purpose, rest := body, index := 0 }
    { m with session := { session with calls := call :: session.calls.tail } }

/-- One step. A finished machine stays as it is. -/
def step (m : Machine) : Machine :=
  match m.settled with
  | some (tag, r) => m.settle tag r
  | none =>
    match m.session.calls with
    | [] =>
      match m.steps with
      | [] => m
      | s :: rest =>
        beginStmt { m with steps := rest, index := m.index + 1 } (tagOf [m.index] s) s.action
    | call :: below =>
      match call.rest with
      | s :: rest =>
        let call' := { call with rest, index := call.index + 1 }
        beginStmt { m with session := { m.session with calls := call' :: below } }
          (tagOf (call.tag.path ++ [call.index]) s) s.action
      | [] => m.finishCall call

section Step

variable {m : Machine}

theorem step_of_settled {tag : Tag} {r : Except Error Result} (h : m.settled = some (tag, r)) :
    m.step = m.settle tag r := by
  unfold step
  rw [h]

theorem step_of_idle (h : m.settled = none) (hc : m.session.calls = []) (hs : m.steps = []) :
    m.step = m := by
  unfold step
  simp only [h, hc, hs]

theorem step_of_steps (h : m.settled = none) (hc : m.session.calls = []) {s : Stmt}
    {rest : List Stmt} (hs : m.steps = s :: rest) :
    m.step = beginStmt { m with steps := rest, index := m.index + 1 } (tagOf [m.index] s)
      s.action := by
  unfold step
  simp only [h, hc, hs]

theorem step_of_rest (h : m.settled = none) {call : Call} {below : List Call}
    (hc : m.session.calls = call :: below) {s : Stmt} {rest : List Stmt}
    (hr : call.rest = s :: rest) :
    m.step = beginStmt
      { m with session := { m.session with
          calls := { call with rest, index := call.index + 1 } :: below } }
      (tagOf (call.tag.path ++ [call.index]) s) s.action := by
  unfold step
  simp only [h, hc, hr]

theorem step_of_ended (h : m.settled = none) {call : Call} {below : List Call}
    (hc : m.session.calls = call :: below) (hr : call.rest = []) : m.step = m.finishCall call := by
  unfold step
  simp only [h, hc, hr]

end Step

/-- At most so many steps, as long as something is left to do. -/
def run : Nat → Machine → Machine
  | 0, m => m
  | steps + 1, m => if m.finished then m else run steps m.step

@[simp] theorem run_zero (m : Machine) : run 0 m = m := rfl

theorem step_of_finished {m : Machine} (h : m.finished = true) : m.step = m := by
  unfold finished at h
  simp only [Bool.and_eq_true, Option.isNone_iff_eq_none, List.isEmpty_iff] at h
  exact step_of_idle h.1.1 h.1.2 h.2

theorem run_of_finished {m : Machine} (h : m.finished = true) (n : Nat) : run n m = m := by
  cases n with
  | zero => rfl
  | succ n => rw [run, if_pos h]

/-- Running is stepping again and again. -/
theorem run_succ (n : Nat) (m : Machine) : run (n + 1) m = run n m.step := by
  rw [run]
  split
  · rename_i h
    rw [step_of_finished h, run_of_finished h]
  · rfl

theorem run_add (a b : Nat) (m : Machine) : run (a + b) m = run b (run a m) := by
  induction a generalizing m with
  | zero => rw [Nat.zero_add, run_zero]
  | succ a ih => rw [Nat.succ_add, run_succ, run_succ, ih]

theorem run_step (k : Nat) (m : Machine) : run (k + 1) m = (run k m).step := by
  rw [run_add, run_succ, run_zero]

end Machine

end RuleTree
