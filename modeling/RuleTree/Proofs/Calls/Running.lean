import RuleTree.Proofs.Failure.Unwinding
import RuleTree.Proofs.Sheets.Latest

/-!
# Bodies that are run to their end

* `Machine.CallSource`, `Machine.callSource`: where every call of the next state comes from;
* `Machine.Running`: a body was entered at some step, and its call has been in progress ever since,
  with no more of the body left than what comes after the statements that it has begun;
* `Machine.Running.step`: a call that is still there is still running;
* `Purpose.Lone`, `Machine.running`: calls that never go on with another body are running the body
  that they were entered with;
* `Machine.Completed`: a body was run to its end, and nothing in it failed.

A call is in progress as long as none of its statements has failed: a failure would end it.
-/

namespace RuleTree

/-- Being a purpose that a statement has from the start, and not one that it goes on with after
another body has ended. -/
def Purpose.Lone (purpose : Purpose) : Prop :=
  ∀ σ σ' : Session, ∀ before body, σ.finish before ≠ .enter σ' purpose body

/-- To keep a new style sheet is what a statement is up to from the start. -/
theorem Purpose.lone_of_sheetEvent? {purpose : Purpose} {e : SheetEvent}
    (h : purpose.sheetEvent? = some e) : purpose.Lone := by
  intro σ σ' before body hb
  cases purpose with
  | register id host n out =>
    cases (Session.amends_of_finish hb).registry σ' _ body id hb rfl
  | _ => cases h

namespace Machine

variable {m : Machine} {inner outer : List Call} {c : Call}

/-! ### Where calls come from -/

/-- A statement that begins is the next one of a body or of the script, with its arguments worked out,
and is performed. -/
theorem proceeds_of_task {σ : Session} {tag : Tag} {action : Action Datum (List Stmt)}
    (h : m.task = .begin σ tag action) :
    ∃ m₀ s, m.settled = none ∧ m.Proceeds m₀ tag s ∧
      Session.evalAction s.action m₀.session = .ok (action, σ) ∧
      m.step = { m₀ with session := σ }.perform tag action := by
  cases m.turn with
  | settle settled =>
    unfold Machine.task at h
    rw [settled] at h
    cases h
  | @begin m₀ tag' s settled proceeds step =>
    rw [task_of_proceeds settled proceeds] at h
    unfold taskOf at h
    rw [beginStmt_eq] at step
    cases he : Session.evalAction s.action m₀.session with
    | error e =>
      rw [he] at h
      cases h
    | ok p =>
      rw [he] at h step
      cases h
      exact ⟨m₀, s, settled, proceeds, he, step⟩
  | finish settled calls rest =>
    unfold Machine.task at h
    simp only [settled, calls, rest] at h
    cases h
  | idle settled calls steps =>
    unfold Machine.task at h
    simp only [settled, calls, steps] at h
    cases h

/-- Where a call of the next state comes from that stands above others. -/
inductive CallSource (m : Machine) (c : Call) (outer : List Call) : Prop
  /-- it was there, in the same place -/
  | kept (inner : List Call) (calls : m.session.calls = inner ++ c :: outer)
  /-- it was the innermost call, and moved on in its body -/
  | advanced (s : Stmt) (call : Call) (calls : m.session.calls = call :: outer)
    (purpose : c.purpose = call.purpose) (statements : call.rest = s :: c.rest)
    (index : c.index = call.index + 1)
  /-- a statement that began has entered its body -/
  | entered (σ σ' : Session) (tag : Tag) (action : Action Datum (List Stmt))
    (task : m.task = .begin σ tag action) (enter : σ.begin action = .enter σ' c.purpose c.rest)
    (index : c.index = 0)
  /-- a call goes on with another body -/
  | turned (call : Call) (σ' : Session) (body : List Stmt)
    (enter : m.session.finish call.purpose = .enter σ' c.purpose body)

/-- A call of the state in which the next statement begins. -/
theorem Proceeds.callSource {m₀ : Machine} {tag : Tag} {s : Stmt} (h : m.Proceeds m₀ tag s)
    (hc : m₀.session.calls = inner ++ c :: outer) : m.CallSource c outer := by
  cases h with
  | script calls steps => exact .kept inner hc
  | @body call below s rest calls statements =>
    cases inner with
    | nil =>
      obtain ⟨rfl, rfl⟩ := List.cons.inj hc
      exact .advanced s call calls rfl statements rfl
    | cons top inner =>
      obtain ⟨rfl, rfl⟩ := List.cons.inj hc
      exact .kept (call :: inner) calls

theorem callSource (h : m.step.session.calls = inner ++ c :: outer) : m.CallSource c outer := by
  cases m.turn with
  | @settle tag r settled step =>
    obtain ⟨handles, saved, hk⟩ := keepResult_eq m.session tag r
    rw [step] at h
    unfold Machine.settle Machine.record at h
    rw [hk] at h
    simp only at h
    split at h
    · rename_i top below _ hcalls
      exact .kept (top :: inner) (hcalls.trans (congrArg _ h))
    · exact .kept inner h
  | @begin m₀ tag s settled proceeds step =>
    rw [beginStmt_eq] at step
    have ht := task_of_proceeds settled proceeds
    unfold taskOf at ht
    cases he : Session.evalAction s.action m₀.session with
    | error e =>
      rw [he] at step
      rw [step] at h
      exact proceeds.callSource h
    | ok p =>
      obtain ⟨action, σ⟩ := p
      rw [he] at step ht
      simp only at step
      have hσ : σ.calls = m₀.session.calls :=
        ((Session.keeps_evalAction s.action).beside he).calls
      have hb := σ.calls_begin action
      cases hst : σ.begin action with
      | done σ' r =>
        rw [hst] at hb
        rw [step, perform_done hst] at h
        exact proceeds.callSource (hσ.symm.trans (hb.symm.trans h))
      | enter σ' purpose body =>
        rw [step, perform_enter hst] at h
        simp only [hσ] at h
        cases inner with
        | nil =>
          obtain ⟨rfl, rfl⟩ := List.cons.inj h
          exact .entered σ σ' tag action ht hst rfl
        | cons top inner => exact proceeds.callSource (List.cons.inj h).2
  | @finish call below settled calls rest step =>
    rw [step] at h
    have hb := m.session.calls_finish call.purpose
    unfold finishCall at h
    cases hst : m.session.finish call.purpose with
    | done σ' r =>
      rw [hst] at h hb
      have htail : σ'.calls.tail = below := by rw [show σ'.calls = _ from hb, calls]; rfl
      exact .kept (call :: inner) (by rw [calls, ← htail]; exact congrArg _ h)
    | enter σ' purpose body =>
      rw [hst] at h hb
      have htail : σ'.calls.tail = below := by rw [show σ'.calls = _ from hb, calls]; rfl
      simp only [htail] at h
      cases inner with
      | nil =>
        obtain ⟨rfl, rfl⟩ := List.cons.inj h
        exact .turned call σ' body hst
      | cons top inner => exact .kept (call :: inner) (calls.trans (congrArg _ (List.cons.inj h).2))
  | idle settled calls steps step =>
    rw [step] at h
    exact .kept inner h

/-! ### Bodies that are being run -/

/-- A body that a step entered, in a call above others that was in progress from then on. -/
structure Running (m : Machine) (purpose : Purpose) (body : List Stmt) (outer : List Call)
    (first last : Nat) : Prop where
  lt : first < last
  /-- a statement began by entering the body -/
  entered : ∃ σ σ' tag action, (run first m).task = .begin σ tag action ∧
    σ.begin action = .enter σ' purpose body
  /-- what was left of the body is what comes after the statements that had begun -/
  working : ∀ i, first < i → i ≤ last → ∃ inner call,
    (run i m).session.calls = inner ++ call :: outer ∧ call.purpose = purpose ∧
      call.rest = body.drop call.index

theorem Running.succ {purpose : Purpose} {body : List Stmt} {first last : Nat}
    (h : m.Running purpose body outer first last)
    (hc : (run (last + 1) m).session.calls = inner ++ c :: outer) (hp : c.purpose = purpose)
    (hr : c.rest = body.drop c.index) : m.Running purpose body outer first (last + 1) where
  lt := Nat.lt_succ_of_lt h.lt
  entered := h.entered
  working i hf hl := by
    rcases Nat.le_succ_iff.1 hl with hl | rfl
    · exact h.working i hf hl
    · exact ⟨inner, c, hc, hp, hr⟩

/-- A call is running the body that a statement has entered. -/
theorem running (k : Nat) (m : Machine) (start : m.session.calls = []) {inner outer : List Call}
    {c : Call} (h : (run k m).session.calls = inner ++ c :: outer) (lone : c.purpose.Lone) :
    ∃ first body, m.Running c.purpose body outer first k ∧ c.rest = body.drop c.index := by
  induction k generalizing inner c with
  | zero =>
    rw [run_zero, start] at h
    cases inner <;> cases h
  | succ k ih =>
    have h' := h
    rw [run_step] at h'
    cases callSource h' with
    | kept inner' calls =>
      obtain ⟨first, body, hr, hrest⟩ := ih calls lone
      exact ⟨first, body, hr.succ h rfl hrest, hrest⟩
    | advanced s call calls purpose statements index =>
      obtain ⟨first, body, hr, hrest⟩ := ih (show _ = [] ++ call :: outer from calls) (purpose ▸ lone)
      have hrest' : c.rest = body.drop c.index := by
        rw [index, ← List.tail_drop, ← hrest, statements, List.tail_cons]
      exact ⟨first, body, (purpose ▸ hr).succ h rfl hrest', hrest'⟩
    | entered σ σ' tag action task enter index =>
      refine ⟨k, c.rest, ⟨Nat.lt_succ_self k, ⟨σ, σ', tag, action, task, enter⟩, ?_⟩, ?_⟩
      · intro i hf hl
        obtain rfl := Nat.le_antisymm hl hf
        exact ⟨inner, c, h, rfl, by rw [index, List.drop_zero]⟩
      · rw [index, List.drop_zero]
    | turned call σ' body enter => exact absurd enter (lone _ _ _ _)

/-! ### Bodies that were run to their end -/

/-- A body was run to its end: a statement entered it, it was left to its last statement, none of
its statements failed, and then the statement that had entered it went on. -/
structure Completed (m : Machine) (purpose : Purpose) (body : List Stmt) (first last : Nat) :
    Prop where
  running : ∃ outer, m.Running purpose body outer first last ∧
    ∀ i, first < i → i ≤ last → ∀ call, (run i m).session.calls = call :: outer →
      ∀ tag r e, ¬ (run i m).Raises tag r e
  finished : ∃ call, (run last m).task = .finish call ∧ call.purpose = purpose ∧
    body.length ≤ call.index

/-- An error ends the innermost call. -/
theorem calls_of_raises {below : List Call} {tag : Tag} {r : Except Error Result} {e : Error}
    (h : m.Raises tag r e) (hc : m.session.calls = c :: below) :
    m.step.session.calls = below := by
  rw [step_of_raises h]
  show m.session.calls.drop 1 = below
  rw [hc, List.drop_succ_cons, List.drop_zero]

theorem call_of_task {call : Call} (h : m.task = .finish call) :
    m.settled = none ∧ call.rest = [] ∧ ∃ below, m.session.calls = call :: below := by
  unfold task at h
  split at h
  · cases h
  · rename_i hs
    split at h
    · split at h
      · cases h
      · unfold taskOf at h
        split at h <;> cases h
    · rename_i top below hc
      split at h
      · unfold taskOf at h
        split at h <;> cases h
      · rename_i hr
        cases h
        exact ⟨hs, hr, below, hc⟩

/-- A call whose body has ended was running it from its first to its last statement. -/
theorem completed {k : Nat} (start : m.session.calls = []) {call : Call}
    (h : (run k m).task = .finish call) (lone : call.purpose.Lone) :
    ∃ first body, m.Completed call.purpose body first k := by
  obtain ⟨settled, rest, below, calls⟩ := call_of_task h
  obtain ⟨first, body, hr, hrest⟩ := running k m start (show _ = [] ++ call :: below from calls) lone
  refine ⟨first, body, ⟨below, hr, fun i hf hl c hc tag r e he => ?_⟩, call, h, rfl, ?_⟩
  · rcases Nat.lt_or_eq_of_le hl with hl | rfl
    -- the call is still there after the step, though an error would have ended it
    · obtain ⟨inner, c', hc', -⟩ := hr.working (i + 1) (Nat.lt_succ_of_lt hf) hl
      rw [run_step, calls_of_raises he hc] at hc'
      have hlen := congrArg List.length hc'
      simp only [List.length_append, List.length_cons] at hlen
      omega
    · cases settled.symm.trans he.1
  · rw [rest] at hrest
    exact List.drop_eq_nil_iff.1 hrest.symm

end Machine

end RuleTree
