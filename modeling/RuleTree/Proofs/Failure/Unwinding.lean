import RuleTree.Proofs.Calls.Turn
import Mathlib.Data.List.TakeWhile

/-!
# How an error passes

* `Purpose.catches`, `Machine.crossed`: the calls that an error ends on its way to the first
  attempt;
* `Machine.Raises`, `Machine.failure?`: a completed statement that failed, or whose result cannot be
  told, and one that failed;
* `Machine.unwound`: the state after the error has ended so many calls;
* `Machine.run_unwinding`: up to the first attempt, and to the end of the step of the script if
  there is none, this is the state that the steps lead to.

On its way an error changes nothing but the calls, the trace and the statement just completed.
-/

namespace RuleTree

deriving instance DecidableEq for Error, Tag

/-- Whether a call catches the errors of its body. -/
def Purpose.catches : Purpose → Bool
  | attempt => true
  | _ => false

namespace Machine

/-- The calls that an error ends before one catches it, the innermost first. -/
def crossed (m : Machine) : List Call := m.session.calls.takeWhile fun c => !c.purpose.catches

/-- The statement that was just completed failed with an error, or its result cannot be told. -/
def Raises (m : Machine) (tag : Tag) (r : Except Error Result) (e : Error) : Prop :=
  m.settled = some (tag, r) ∧ r.bind (·.told m.session.views) = .error e

/-- The statement that was just completed, and the error that it failed with. -/
def failure? (m : Machine) : Option (Tag × Error) :=
  match m.settled with
  | some (tag, .error e) => some (tag, e)
  | _ => none

theorem raises_of_failure? {m : Machine} {tag : Tag} {e : Error} (h : m.failure? = some (tag, e)) :
    m.Raises tag (.error e) e := by
  unfold failure? at h
  split at h
  · rename_i hs
    cases h
    exact ⟨hs, rfl⟩
  · cases h

/-- The state after an error was recorded for the statement that raised it and for so many calls.
The next call fails with it, or catches it. -/
def unwound (m : Machine) (tag : Tag) (r : Except Error Result) (e : Error) (ended : Nat) :
    Machine :=
  { m with
    session := { keepResult m.session tag r with
      calls := m.session.calls.drop (ended + 1)
      trace := m.session.trace ++
        (((tag :: m.session.calls.map Call.tag).take (ended + 1)).map
          fun t => (⟨t.path, .error e⟩ : TraceEntry)).toArray }
    settled := m.session.calls[ended]?.map fun c => (c.tag, afterError c.purpose e) }

theorem afterError_of_not_catches {purpose : Purpose} (h : purpose.catches = false) (e : Error) :
    afterError purpose e = .error e := by
  cases purpose with
  | attempt => cases h
  | _ => rfl

/-- Keeping a result changes handles and saved results only. -/
theorem keepResult_eq (σ : Session) (tag : Tag) (r : Except Error Result) :
    ∃ handles saved, keepResult σ tag r = { σ with handles, saved } := by
  cases r with
  | error e => exact ⟨_, _, rfl⟩
  | ok result => exact ⟨_, _, rfl⟩

/-- A statement that fails is recorded, and the innermost call fails with the same error or catches
it. -/
theorem settle_of_raises {m : Machine} {tag : Tag} {r : Except Error Result} {e : Error}
    (h : r.bind (·.told m.session.views) = .error e) : m.settle tag r =
      { m with
        session := { keepResult m.session tag r with
          calls := m.session.calls.tail
          trace := m.session.trace.push ⟨tag.path, .error e⟩ }
        settled := m.session.calls.head?.map fun c => (c.tag, afterError c.purpose e) } := by
  obtain ⟨handles, saved, hk⟩ := keepResult_eq m.session tag r
  unfold settle record
  rw [hk]
  have hv : Session.views { m.session with handles, saved } = m.session.views := rfl
  simp only [hv, h]
  cases hc : m.session.calls <;> rfl

/-- A statement of which something is told is recorded, and fails no call. -/
theorem settle_of_told {m : Machine} {tag : Tag} {r : Except Error Result} {told : Picture}
    (h : r.bind (·.told m.session.views) = .ok told) : m.settle tag r =
      { m with
        session := { keepResult m.session tag r with
          trace := m.session.trace.push ⟨tag.path, .ok told⟩ }
        settled := none } := by
  obtain ⟨handles, saved, hk⟩ := keepResult_eq m.session tag r
  unfold settle record
  rw [hk]
  have hv : Session.views { m.session with handles, saved } = m.session.views := rfl
  simp only [hv, h]

theorem step_of_raises {m : Machine} {tag : Tag} {r : Except Error Result} {e : Error}
    (h : m.Raises tag r e) : m.step = m.unwound tag r e 0 := by
  rw [step_of_settled h.1, settle_of_raises h.2]
  unfold unwound
  cases hc : m.session.calls <;> simp

/-- A call that catches nothing passes the error on. -/
theorem raises_unwound {m : Machine} {tag : Tag} {r : Except Error Result} {e : Error} {i : Nat}
    {c : Call} (hi : m.session.calls[i]? = some c) (hc : c.purpose.catches = false) :
    (m.unwound tag r e i).Raises c.tag (.error e) e := by
  refine ⟨?_, rfl⟩
  unfold unwound
  rw [hi, Option.map_some, afterError_of_not_catches hc]

theorem unwound_succ {m : Machine} {tag : Tag} {r : Except Error Result} {e : Error} {i : Nat}
    {c : Call} (hi : m.session.calls[i]? = some c) :
    (m.unwound tag r e i).unwound c.tag (.error e) e 0 = m.unwound tag r e (i + 1) := by
  obtain ⟨hlt, rfl⟩ := List.getElem?_eq_some_iff.1 hi
  have ht : ((tag :: m.session.calls.map Call.tag).take (i + 1 + 1)) =
      (tag :: m.session.calls.map Call.tag).take (i + 1) ++ [m.session.calls[i].tag] := by
    rw [List.take_succ_eq_append_getElem (by simpa using hlt)]
    simp
  unfold unwound
  simp only [ht, List.map_append, keepResult]
  simp [List.drop_drop, Nat.add_comm]

/-- An error passes unchanged through the calls up to the first one that catches it. -/
theorem run_unwinding {m : Machine} {tag : Tag} {r : Except Error Result} {e : Error}
    (h : m.Raises tag r e) (i : Nat) (hi : i ≤ m.crossed.length) :
    run (i + 1) m = m.unwound tag r e i := by
  induction i with
  | zero => rw [run_succ, run_zero, step_of_raises h]
  | succ i ih =>
    have hlt : i < m.crossed.length := hi
    obtain ⟨c, hc⟩ : ∃ c, m.crossed[i]? = some c := ⟨_, List.getElem?_eq_getElem hlt⟩
    have hcalls : m.session.calls[i]? = some c := by
      have hsplit : m.session.calls = m.crossed ++ m.session.calls.dropWhile _ :=
        List.takeWhile_append_dropWhile.symm
      rw [hsplit, List.getElem?_append_left hlt, hc]
    have hcatch : c.purpose.catches = false := by
      have := List.mem_takeWhile_imp (List.mem_of_getElem? hc)
      simpa using this
    rw [run_step, ih (Nat.le_of_lt hlt), step_of_raises (raises_unwound hcalls hcatch),
      unwound_succ hcalls]

end Machine

end RuleTree
