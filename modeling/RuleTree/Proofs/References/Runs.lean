import RuleTree.Proofs.Calls.Turn
import RuleTree.Proofs.References.Sound

/-!
# Nothing refers to what was never made or announced

* `Machine.Grounded`: a machine of which this is true;
* `Machine.Grounded.step`, `Machine.Grounded.run`: it stays true, and nothing that was made is ever
  gone;
* `Machine.grounded`, `Machine.earlier_run`: the same for the states of a script.
-/

namespace RuleTree

namespace Machine

/-- Nothing refers to what was never made, and neither does the result of the statement that was
just completed. -/
structure Grounded (m : Machine) : Prop where
  session : m.session.Grounded
  settled : ∀ tag r, m.settled = some (tag, .ok r) → m.session.Covers r.datum.identities

variable {m : Machine}

theorem earlier_settle (m : Machine) (tag : Tag) (r : Except Error Result) :
    m.session.Earlier (m.settle tag r).session := by
  have hk : m.session.Earlier (keepResult m.session tag r) := by
    cases r <;> exact .of_kept rfl rfl rfl rfl rfl rfl
  refine hk.trans ?_
  unfold settle
  simp only
  split <;> exact .of_kept rfl rfl rfl rfl rfl rfl

theorem Grounded.settle (h : m.Grounded) {tag : Tag} {r : Except Error Result}
    (hs : m.settled = some (tag, r)) : (m.settle tag r).Grounded := by
  have hk := h.session.keepResult tag fun a ha => h.settled tag a (ha ▸ hs)
  have hc : (keepResult m.session tag r).calls = m.session.calls := by cases r <;> rfl
  unfold Machine.settle
  simp only
  generalize r.bind _ = told
  have hkept (calls : List Call)
      (hsub : ∀ c ∈ calls, c ∈ (keepResult m.session tag r).calls) :
      ({ record (keepResult m.session tag r) tag told with calls } : Session).Grounded :=
    { hk with
      names := hk.names.later (.of_kept rfl rfl rfl rfl rfl rfl) rfl rfl
      purposes := fun c hc => hk.purposes c (hsub c hc) }
  split
  · rename_i call below hcalls
    refine ⟨hkept below fun c hc => ?_, fun tag' a ha => ?_⟩
    · rw [show (keepResult m.session tag r).calls = call :: below from hcalls]
      exact List.mem_cons_of_mem _ hc
    · unfold afterError at ha
      split at ha
      · cases ha
        exact .nil _
      · cases ha
  · exact ⟨hkept _ fun c hc => hc, nofun⟩

/-- A statement begins that was passed nothing but what was made. -/
theorem Grounded.perform (h : m.session.Grounded) (hs : m.settled = none) (tag : Tag)
    {action : Action Datum (List Stmt)}
    (hc : m.session.Covers (action.arguments.flatMap Datum.identities)) :
    m.session.Earlier (m.perform tag action).session ∧ (m.perform tag action).Grounded := by
  have hst := Session.sound_begin h hc
  cases hb : m.session.begin action with
  | done σ r =>
    rw [perform_done hb]
    rw [hb] at hst
    exact ⟨hst.earlier, hst.grounded, fun tag' b hb' => hst.result b (by cases hb'; rfl)⟩
  | enter σ purpose body =>
    rw [perform_enter hb]
    have hcalls := m.session.calls_begin action
    rw [hb] at hst hcalls
    refine ⟨hst.earlier.trans (.of_kept rfl rfl rfl rfl rfl rfl), hst.grounded.of_calls fun c hc => ?_,
      fun tag' b hb' => ?_⟩
    · rcases List.mem_cons.1 hc with rfl | hc
      · exact hst.purpose σ purpose body rfl
      · exact hst.grounded.purposes c (hcalls ▸ hc)
    · cases hs.symm.trans hb'

/-- A statement begins, once its arguments are worked out. -/
theorem Grounded.beginStmt (h : m.session.Grounded) (hs : m.settled = none) (tag : Tag)
    (action : Action Expr (List Stmt)) :
    m.session.Earlier (m.beginStmt tag action).session ∧ (m.beginStmt tag action).Grounded := by
  rw [beginStmt_eq]
  cases he : Session.evalAction action m.session with
  | error e => exact ⟨.refl _, h, nofun⟩
  | ok p =>
    obtain ⟨a, σ⟩ := p
    obtain ⟨hf, hc⟩ := h.names.covers (Session.tells_evalAction (.refl _) action) he
    obtain ⟨hearlier, hg⟩ := perform (m := { m with session := σ }) (h.follows hf) hs tag hc
    exact ⟨(Session.Earlier.of_follows hf).trans hearlier, hg⟩

/-- A step leads to a later session in which still nothing refers to what was never made. -/
theorem Grounded.step (h : m.Grounded) : m.session.Earlier m.step.session ∧ m.step.Grounded := by
  cases m.turn with
  | settle settled step =>
    rw [step]
    exact ⟨m.earlier_settle _ _, h.settle settled⟩
  | begin settled proceeds step =>
    rw [step]
    cases proceeds with
    | @script s rest calls steps =>
      let m₀ : Machine := { m with steps := rest, index := m.index + 1 }
      exact beginStmt (m := m₀) h.session settled _ _
    | @body call below s rest calls statements =>
      let m₀ : Machine := { m with session := { m.session with
        calls := { call with rest, index := call.index + 1 } :: below } }
      have he : m.session.Earlier m₀.session := .of_kept rfl rfl rfl rfl rfl rfl
      have h₀ : m₀.session.Grounded := h.session.of_calls fun c hc => by
        have hp := h.session.purposes
        rw [calls] at hp
        rcases List.mem_cons.1 hc with rfl | hc
        · exact hp call List.mem_cons_self
        · exact hp c (List.mem_cons_of_mem _ hc)
      exact ⟨he.trans (beginStmt (m := m₀) h₀ settled _ _).1, (beginStmt (m := m₀) h₀ settled _ _).2⟩
  | @finish call below settled calls rest step =>
    rw [step]
    have hp := h.session.purposes
    rw [calls] at hp
    have hst := Session.sound_finish h.session (hp call List.mem_cons_self)
    have hcalls := m.session.calls_finish call.purpose
    unfold finishCall
    generalize m.session.finish call.purpose = st at hst hcalls
    have htail {σ₁ : Session} (hσ : σ₁.calls = m.session.calls) (hg : σ₁.Grounded) :
        ∀ c ∈ σ₁.calls.tail, σ₁.Covers c.purpose.links :=
      fun c hc => hg.purposes c (List.mem_of_mem_tail hc)
    cases st with
    | done σ₁ r =>
      exact ⟨hst.earlier.trans (.of_kept rfl rfl rfl rfl rfl rfl),
        hst.grounded.of_calls (htail hcalls hst.grounded),
        fun tag a ha => hst.result a (by cases ha; rfl)⟩
    | enter σ₁ purpose body =>
      refine ⟨hst.earlier.trans (.of_kept rfl rfl rfl rfl rfl rfl), hst.grounded.of_calls fun c hc => ?_,
        fun tag a ha => ?_⟩
      · rcases List.mem_cons.1 hc with rfl | hc
        · exact hst.purpose σ₁ purpose body rfl
        · exact htail hcalls hst.grounded c hc
      · rw [settled] at ha
        cases ha
  | idle settled calls steps step =>
    rw [step]
    exact ⟨.refl _, h⟩

theorem Grounded.load (s : Script) : (Machine.load s).Grounded where
  session := {
    stamps := Nat.one_lt_two
    selector := fun _ => .nil _
    older := nofun
    parent := nofun
    children := nofun
    host := nofun
    options := nofun
    names := ⟨nofun, nofun⟩
    handles := nofun
    iterations := nofun
    left := nofun
    sheets := fun id e he => by
      have hnil : (Session.start s.generators s.logs).filedEntries id = [] := by
        rcases id with _ | id <;> rfl
      rw [show (Machine.load s).session.filedEntries id = _ from hnil] at he
      cases he
    purposes := nofun }
  settled := nofun

theorem Grounded.run (h : m.Grounded) (k : Nat) :
    m.session.Earlier (Machine.run k m).session ∧ (Machine.run k m).Grounded := by
  induction k with
  | zero => exact ⟨.refl _, h⟩
  | succ k ih =>
    rw [run_step]
    exact ⟨ih.1.trans ih.2.step.1, ih.2.step.2⟩

/-- In every state of a script nothing refers to what was never made, and selectors refer to older
rule sets. -/
theorem grounded (s : Script) (k : Nat) : (Machine.run k (Machine.load s)).Grounded :=
  ((Grounded.load s).run k).2

/-- Nothing that was made is ever gone. -/
theorem earlier_run (s : Script) (k j : Nat) :
    (Machine.run k (Machine.load s)).session.Earlier
      (Machine.run j (Machine.run k (Machine.load s))).session := ((grounded s k).run j).1

/-- A generator that the script names has the same body all the time. -/
theorem bodyOf_named (s : Script) (k : Nat) (name : String) :
    (run k (load s)).session.bodyOf (.named name) = (s.generators.find? name).getD [] := by
  have hg : (run k (load s)).session.generators = s.generators := (earlier_run s 0 k).generators
  show ((run k (load s)).session.generators.find? name).getD [] = _
  rw [hg]

end Machine

end RuleTree
