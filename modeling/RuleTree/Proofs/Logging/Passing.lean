import RuleTree.Proofs.Logging.Announced
import RuleTree.Proofs.Rebuilding.Abreast
import RuleTree.Proofs.Sheets.Latest

/-!
# The log of a run

As long as no statement fails, the log tells what is made.

* `Session.purposes`: what bodies are being run for;
* `Machine.GoesOn`: the state that a start leads to;
* `Machine.Passes`, `Machine.passes`: the ways a step can go that fails no statement, and that there
  are no others;
* `Machine.logs_history`: the log goes on with the announcements of all that a history has made;
* `Store.Trail.announced`: and these are the selectors of the next rule sets.
-/

namespace RuleTree

/-- What bodies are being run for, the innermost first. -/
def Session.purposes (σ : Session) : List Purpose := σ.calls.map Call.purpose

/-- What the body of a start is run for. -/
def Start.purpose? : Start → Option Purpose
  | done _ _ => none
  | enter _ purpose _ => some purpose

/-- The selectors that are announced are those that the next rule sets have ever after. -/
theorem Store.Trail.announced {s t : Store} {events : List Event} (h : s.Trail events t) :
    events.filterMap Event.announced? =
      (events.filterMap Event.made?).map fun n => (t.get n).selector := by
  induction h with
  | nil => rfl
  | @cons s t u e es hb ht ih =>
    have first {n : NodeId} {d : Datum} (ha : e.announced? = some d) (hm : e.made? = some n)
        (hd : (t.get n).selector = d) : (e :: es).filterMap Event.announced? =
          ((e :: es).filterMap Event.made?).map fun n => (u.get n).selector := by
      have hn : n < t.next := by
        rcases hb.made with ⟨hm', hn⟩ | ⟨hm', -⟩
        · cases hm'.symm.trans hm
          exact hn ▸ Nat.lt_succ_self _
        · cases hm'.symm.trans hm
      rw [List.filterMap_cons_some ha, List.filterMap_cons_some hm, List.map_cons, ih,
        (ht.madeAs hn).selector, hd]
    have he := hb.holds
    cases e with
    | planted | sprouted => exact first rfl rfl he.1
    | selected | wrote | defined | cleared | optionSet =>
      rw [List.filterMap_cons_none rfl, List.filterMap_cons_none rfl, ih]

/-- Beginning a statement lists nothing. -/
theorem Session.quiet_deeds (σ : Session) (action : Action Datum (List Stmt)) :
    ∀ e ∈ σ.deeds action, e.lists = false := by
  cases hw : action.walks with
  | false => exact (σ.does_begin action hw).turns.quiet
  | true =>
    rw [(σ.begin_walks hw).1]
    exact nofun

/-- A new rule set that was not selected is complete when its body has ended. -/
theorem Session.finish_of_made (σ : Session) {purpose : Purpose} {n : NodeId}
    (hm : purpose.made? = some n) (hp : purpose.pending? = none) :
    ∃ σ' r, σ.finish purpose = .done σ' r ∧ σ.finishDeeds purpose = [] ∧ σ'.store = σ.store ∧
      σ'.log = σ.log := by
  cases purpose with
  | select => cases hp
  | build n out => exact ⟨_, _, rfl, rfl, rfl, rfl⟩
  | register id host n out => exact ⟨_, _, rfl, rfl, rfl, rfl⟩
  | reset | name | probe | attempt => cases hm

/-- Attaching what was selected makes nothing. -/
theorem Session.idle_finishDeeds_select (σ : Session) (child : NodeId) (fragment : Datum)
    (className : Option Datum) : AllIdle (σ.finishDeeds (.select child fragment className)) := by
  unfold finishDeeds
  simp only
  split
  · exact .single rfl
  · exact .nil

namespace Machine

variable {m : Machine}

/-- The ways a step can go that fails no statement. -/
inductive Passes (m : Machine) : Prop
  /-- what is made is going to be filled, at most in the place of what fills nothing for the first
  time -/
  | fills (dropped entered : Option Purpose) (rest : List Purpose)
    (before : m.session.purposes = dropped.toList ++ rest)
    (after : m.step.session.purposes = entered.toList ++ rest)
    (idle : dropped.bind Purpose.made? = none) (quiet : ∀ e ∈ m.events, e.lists = false)
    (made : m.events.filterMap Event.made? = (entered.bind Purpose.made?).toList)
    (selected : m.events.filterMap Event.selected? = (entered.bind Purpose.pending?).toList)
  /-- the generator of a selection has come to its end -/
  | attaches (child : NodeId) (fragment : Datum) (className : Option Datum) (rest : List Purpose)
    (before : m.session.purposes = .select child fragment className :: rest)
    (after : m.step.session.purposes = rest)
    (store : m.step.session.store = m.session.store.attach child)
  /-- the generator of another new rule set has come to its end -/
  | ends (call : Call) (n : NodeId) (σ : Session) (r : Except Error Result) (rest : List Purpose)
    (before : m.session.purposes = call.purpose :: rest) (after : m.step.session.purposes = rest)
    (made : call.purpose.made? = some n) (pending : call.purpose.pending? = none)
    (done : m.session.finish call.purpose = .done σ r)
    (settled : m.step.settled = some (call.tag, r))
    (store : m.step.session.store = m.session.store)

/-- Announcing in the log what the next step makes. -/
def Announces (m : Machine) : Prop :=
  m.session.Logs (m.events.filterMap Event.announced?) m.step.session

/-- Having gone on from a start, on top of calls with some purposes. -/
structure GoesOn (m' : Machine) (tag : Tag) (rest : List Purpose) (st : Start) : Prop where
  purposes : m'.session.purposes = st.purpose?.toList ++ rest
  log : m'.session.log = st.session.log
  store : m'.session.store = st.session.store
  settled : ∀ r, st.result? = some r → m'.settled = some (tag, r)

theorem goesOn_perform (m : Machine) (tag : Tag) (action : Action Datum (List Stmt)) :
    (m.perform tag action).GoesOn tag m.session.purposes (m.session.begin action) := by
  have hc := m.session.calls_begin action
  unfold perform
  cases hb : m.session.begin action with
  | done σ r =>
    rw [hb] at hc
    exact ⟨congrArg (List.map Call.purpose) hc, rfl, rfl, fun _ hr => by cases hr; rfl⟩
  | enter σ purpose body =>
    rw [hb] at hc
    exact ⟨congrArg (fun cs => purpose :: List.map Call.purpose cs) hc, rfl, rfl, nofun⟩

theorem goesOn_finishCall {call : Call} {below : List Call}
    (calls : m.session.calls = call :: below) :
    (m.finishCall call).GoesOn call.tag (below.map Call.purpose)
      (m.session.finish call.purpose) := by
  have hc := congrArg List.tail ((m.session.calls_finish call.purpose).trans calls)
  unfold finishCall
  cases hf : m.session.finish call.purpose with
  | done σ r =>
    rw [hf] at hc
    exact ⟨congrArg (List.map Call.purpose) hc, rfl, rfl, fun _ hr => by cases hr; rfl⟩
  | enter σ purpose body =>
    rw [hf] at hc
    exact ⟨congrArg (fun cs => purpose :: List.map Call.purpose cs) hc, rfl, rfl, nofun⟩

/-- A step that goes on from a start which announces what it makes. -/
theorem passes_of_start {σ : Session} {st : Start} {tag : Tag} (dropped : Option Purpose)
    {rest : List Purpose} (announces : st.Announces σ m.events) (log : σ.log = m.session.log)
    (before : m.session.purposes = dropped.toList ++ rest)
    (idle : dropped.bind Purpose.made? = none) (quiet : ∀ e ∈ m.events, e.lists = false)
    (after : m.step.GoesOn tag rest st) (hs : ∀ tag e, m.step.settled ≠ some (tag, .error e)) :
    m.Passes ∧ m.Announces := by
  obtain ⟨hm, hp, hl⟩ := announces.makes fun e he => hs tag e (after.settled _ he)
  have hmade : st.made? = st.purpose?.bind Purpose.made? := by cases st <;> rfl
  have hpending : st.pending? = st.purpose?.bind Purpose.pending? := by cases st <;> rfl
  refine ⟨.fills dropped st.purpose? rest before after.purposes idle quiet (hmade ▸ hm)
    (hpending ▸ hp), ?_⟩
  intro records hr
  rw [after.log]
  exact hl records (log.trans hr)

theorem Proceeds.log {m m₀ : Machine} {tag : Tag} {s : Stmt} (h : m.Proceeds m₀ tag s) :
    m₀.session.log = m.session.log := by
  cases h <;> rfl

/-- A step that begins a statement passes and announces, unless it fails. -/
theorem passes_of_begin {m₀ : Machine} {tag : Tag} {s : Stmt} (settled : m.settled = none)
    (proceeds : m.Proceeds m₀ tag s) (step : m.step = m₀.beginStmt tag s.action)
    (hs : ∀ tag e, m.step.settled ≠ some (tag, .error e)) : m.Passes ∧ m.Announces := by
  have ht := task_of_proceeds settled proceeds
  rw [beginStmt_eq] at step
  unfold taskOf at ht
  cases he : Session.evalAction s.action m₀.session with
  | error e =>
    rw [he] at step
    exact absurd (congrArg Machine.settled step) (hs tag e)
  | ok p =>
    obtain ⟨action, σ⟩ := p
    rw [he] at step ht
    simp only at step ht
    have hev : m.events = σ.deeds action := by rw [events, ht]
    have hk := Session.keeps_evalAction s.action
    have hp : m.session.purposes = σ.purposes := by
      rw [Session.purposes, Session.purposes, (hk.beside he).calls, proceeds.purposes]
    have ha : (σ.begin action).Announces σ m.events := hev ▸ σ.announces_begin action
    exact passes_of_start none ha ((hk.log he).trans proceeds.log) hp rfl
      (hev ▸ σ.quiet_deeds action) (step ▸ goesOn_perform ..) hs

/-- A step that ends the body of a call passes and announces, unless it fails. -/
theorem passes_of_finish {call : Call} {below : List Call} (settled : m.settled = none)
    (calls : m.session.calls = call :: below) (rest : call.rest = [])
    (step : m.step = m.finishCall call) (hs : ∀ tag e, m.step.settled ≠ some (tag, .error e)) :
    m.Passes ∧ m.Announces := by
  have hev : m.events = m.session.finishDeeds call.purpose := by
    unfold events task
    simp only [settled, calls, rest]
  have before : m.session.purposes = call.purpose :: below.map Call.purpose := by
    rw [Session.purposes, calls, List.map_cons]
  have after : m.step.GoesOn call.tag (below.map Call.purpose) (m.session.finish call.purpose) :=
    step ▸ goesOn_finishCall calls
  cases hp : call.purpose.pending? with
  | some c =>
    -- only the generator of a selection leaves something to attach
    obtain ⟨child, fragment, className, hc⟩ : ∃ child fragment className,
        call.purpose = .select child fragment className := by
      cases hc : call.purpose with
      | select child fragment className => exact ⟨_, _, _, rfl⟩
      | _ =>
        rw [hc] at hp
        cases hp
    rw [hc] at before after hev
    refine ⟨.attaches child fragment className _ before after.purposes after.store, ?_⟩
    rw [Announces, hev, (m.session.idle_finishDeeds_select child fragment className).announced]
    exact .of_log after.log
  | none =>
    cases hm : call.purpose.made? with
    | none =>
      -- a body that was not run for a new rule set may go on with another one
      exact passes_of_start (some call.purpose) (hev ▸ m.session.announces_finish call.purpose)
        rfl before hm (hev ▸ (m.session.does_finish call.purpose hp).turns.quiet) after hs
    | some n =>
      obtain ⟨σ, r, done, deeds, hstore, hlog⟩ := m.session.finish_of_made hm hp
      rw [done] at after
      refine ⟨.ends call n σ r _ before after.purposes hm hp done (after.settled r rfl)
        (after.store.trans hstore), ?_⟩
      rw [Announces, hev, deeds]
      exact .of_log (after.log.trans hlog)

/-- A step that does nothing to rule sets and begins and ends no call. -/
theorem passes_of_idle (purposes : m.step.session.purposes = m.session.purposes)
    (events : m.events = []) (log : m.step.session.log = m.session.log) :
    m.Passes ∧ m.Announces := by
  unfold Announces
  have passes : m.Passes := .fills none none _ rfl purposes rfl (events ▸ nofun) (events ▸ rfl)
    (events ▸ rfl)
  rw [events]
  exact ⟨passes, .of_log log⟩

/-- Every step that follows no failure, and is followed by none, goes in one of these ways, and the
log goes on with the announcements of what it makes. -/
theorem passes (hf : ¬ m.Fails) (hs : ∀ tag e, m.step.settled ≠ some (tag, .error e)) :
    m.Passes ∧ m.Announces := by
  cases m.turn with
  | @settle tag r settled step =>
    have hev : m.events = [] := by
      unfold events task
      simp only [settled]
    cases htold : r.bind (·.told m.session.views) with
    | error e => exact absurd ⟨tag, r, e, settled, htold⟩ hf
    | ok told =>
      rw [settle_of_told htold] at step
      obtain ⟨handles, saved, hk⟩ := keepResult_eq m.session tag r
      rw [hk] at step
      exact passes_of_idle (by rw [step]; rfl) hev (by rw [step])
  | begin settled proceeds step => exact passes_of_begin settled proceeds step hs
  | finish settled calls rest step => exact passes_of_finish settled calls rest step hs
  | idle settled calls steps step =>
    have hev : m.events = [] := by
      unfold events task
      simp only [settled, calls, steps]
    exact passes_of_idle (by rw [step]) hev (by rw [step])

/-- If no statement has failed, none was completed with an error. -/
theorem settled_ne_of_not_fails (hf : ¬ m.Fails) (tag : Tag) (e : Error) :
    m.settled ≠ some (tag, .error e) := fun h => hf ⟨tag, _, e, h, rfl⟩

/-- As long as no statement fails, the log goes on with the announcements of all that is made. -/
theorem logs_history {k : Nat} (hf : ∀ j < k, ¬ (run j m).Fails)
    (hs : ∀ tag e, (run k m).settled ≠ some (tag, .error e)) :
    m.session.Logs ((history k m).filterMap Event.announced?) (run k m).session := by
  induction k with
  | zero => exact .refl _
  | succ k ih =>
    have hk := hf k (Nat.lt_succ_self k)
    rw [run_step] at hs ⊢
    rw [history_add k 1, history, history_zero, List.append_nil, List.filterMap_append]
    exact (ih (fun j hj => hf j (Nat.lt_succ_of_lt hj)) (settled_ne_of_not_fails hk)).trans
      (passes hk hs).2

end Machine

end RuleTree
