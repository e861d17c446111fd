import RuleTree.Proofs.Calls.Perform
import RuleTree.Proofs.Creating.Within
import RuleTree.Proofs.Failure.Unwinding

/-!
# Two statements that run the same body

* `Aim`: what a call is for, and what it keeps alive;
* `Aim.Replaces`: an aim that a body can be run for instead of another one;
* `Purpose.EndsLike`: so that only the result at its end is another one;
* `Replaced`, `Replaced.interchangeable`: calls of which one, with others on top, has been replaced;
* `Machine.Instead`, `Machine.Instead.next`: two machines that differ in such a call only, after a
  step they still do, or the body has failed or is about to end in both;
* `Machine.Instead.exists_end`: so it fails or ends in both if one of them is done with it;
* `Machine.AtEnd.step_eq`: how the two machines go on where it ends;
* `Machine.EndsInstead`, `Machine.Instead.step`: what they come to if the purposes end alike;
* `Machine.corresponds_instead`: two statements that run the same body leave the same behind but for
  their results;
* `Machine.Instead.completes_iff`, `Machine.performs_iff`: two statements that run the same body and
  make the same of its end come to the same, and so do two that begin in the same way.
-/

namespace RuleTree

/-- What a call is for, and what it keeps alive besides. -/
structure Aim where
  purpose : Purpose
  held : List Identity

/-- A call with an aim, as far as its body has come. -/
def Aim.call (a : Aim) (tag : Tag) (rest : List Stmt) (index : Nat) : Call :=
  ⟨a.purpose, tag, rest, index, a.held⟩

/-- Being able to stand in for another aim: a body run for it runs on the same, keeps the same alive,
and fails alike. -/
structure Aim.Replaces (a' a : Aim) : Prop where
  subject : a'.purpose.subject? = a.purpose.subject?
  registry : a'.purpose.registry? = a.purpose.registry?
  links : ∀ i, i ∈ a'.held ++ a'.purpose.links ↔ i ∈ a.held ++ a.purpose.links
  afterError : ∀ e, Machine.afterError a'.purpose e = Machine.afterError a.purpose e

/-- Making the same of the session once the body has ended. Only the result may be another one. -/
def Purpose.EndsLike (purpose' purpose : Purpose) : Prop :=
  ∀ σ : Session, ∃ σ₁ r r', σ.finish purpose = .done σ₁ r ∧ σ.finish purpose' = .done σ₁ r'

/-- For the same purpose it does not matter how what is kept alive was passed. -/
theorem Aim.Replaces.of_held (purpose : Purpose) {held held' : List Identity}
    (kept : ∀ i, i ∈ held' ↔ i ∈ held) : Aim.Replaces ⟨purpose, held'⟩ ⟨purpose, held⟩ where
  subject := rfl
  registry := rfl
  links i := by simp only [List.mem_append, kept i]
  afterError _ := rfl

theorem Purpose.Steady.endsLike {purpose purpose' : Purpose} (h : purpose.Steady)
    (hf : ∀ σ : Session, σ.finish purpose' = σ.finish purpose) : purpose'.EndsLike purpose := by
  intro σ
  obtain ⟨σ₁, r, hd⟩ := h σ
  exact ⟨σ₁, r, r, hd, (hf σ).trans hd⟩

/-- A build can be wanted for something else. -/
theorem Aim.Replaces.build (n : NodeId) (out out' : Output) {held held' : List Identity}
    (kept : ∀ i, i ∈ held' ↔ i ∈ held) :
    Aim.Replaces ⟨.build n out', held'⟩ ⟨.build n out, held⟩ where
  subject := rfl
  registry := rfl
  links i := by
    rw [List.mem_append, List.mem_append, kept i]
    rfl
  afterError _ := rfl

theorem Purpose.endsLike_build (n : NodeId) (out out' : Output) :
    (Purpose.build n out').EndsLike (.build n out) := fun _ => ⟨_, _, _, rfl, rfl⟩

/-- Calls of which one, with a given tag and on top of others, has been replaced. It runs the same
body, and has come as far. -/
inductive Replaced (a a' : Aim) (tag : Tag) (outer : List Call) : List Call → List Call → Prop
  | call (rest : List Stmt) (index : Nat) :
    Replaced a a' tag outer (a.call tag rest index :: outer) (a'.call tag rest index :: outer)
  | inner (call : Call) {cs cs' : List Call} (below : Replaced a a' tag outer cs cs') :
    Replaced a a' tag outer (call :: cs) (call :: cs')

namespace Replaced

variable {a a' : Aim} {tag : Tag} {outer cs cs' : List Call}

theorem length_lt (h : Replaced a a' tag outer cs cs') :
    outer.length < cs.length ∧ outer.length < cs'.length := by
  induction h with
  | call => exact ⟨Nat.lt_succ_self _, Nat.lt_succ_self _⟩
  | inner _ _ ih => exact ⟨Nat.lt_succ_of_lt ih.1, Nat.lt_succ_of_lt ih.2⟩

/-- The replaced calls run on the same and keep the same alive. -/
theorem interchangeable (hr : a'.Replaces a) (h : Replaced a a' tag outer cs cs') :
    Interchangeable cs cs' := by
  induction h with
  | call rest index =>
    refine ⟨?_, ?_, fun i => ?_⟩
    · rw [List.filterMap_cons, List.filterMap_cons]
      simp only [Aim.call, hr.subject]
    · rw [List.filterMap_cons, List.filterMap_cons]
      simp only [Aim.call, hr.registry]
    · rw [List.flatMap_cons, List.flatMap_cons, List.mem_append, List.mem_append]
      exact or_congr_left (hr.links i)
  | inner call _ ih =>
    refine ⟨?_, ?_, fun i => ?_⟩
    · rw [List.filterMap_cons, List.filterMap_cons, ih.subjects]
    · rw [List.filterMap_cons, List.filterMap_cons, ih.registries]
    · rw [List.flatMap_cons, List.flatMap_cons, List.mem_append, List.mem_append, ih.links]

end Replaced

namespace Machine

variable {a a' : Aim} {purpose purpose' : Purpose} {tag : Tag} {outer : List Call} {m m' : Machine}

/-- A machine in the middle of other calls. -/
def within (m : Machine) (calls : List Call) : Machine :=
  { m with session := m.session.within calls }

/-- Two machines that are the same but for a call that has been replaced. -/
def Instead (a a' : Aim) (tag : Tag) (outer : List Call) (m m' : Machine) : Prop :=
  ∃ calls, Replaced a a' tag outer m.session.calls calls ∧ m' = m.within calls

/-- The body of the call has failed in both machines, which are the same. -/
structure FailsInstead (purpose : Purpose) (tag : Tag) (outer : List Call) (m m' : Machine) :
    Prop where
  calls : m.session.calls = outer
  settled : ∃ e, m.settled = some (tag, afterError purpose e)
  same : m' = m

/-- The body of the call is about to end in both machines. -/
structure AtEnd (a a' : Aim) (tag : Tag) (outer : List Call) (m m' : Machine) : Prop where
  settled : m.settled = none
  calls : ∃ index, m.session.calls = a.call tag [] index :: outer ∧
    m' = m.within (a'.call tag [] index :: outer)

/-- The call is over in both machines. They are the same, but what the end of the body gives may be
different. -/
inductive EndsInstead (purpose purpose' : Purpose) (tag : Tag) (outer : List Call)
    (m m' : Machine) : Prop
  | failed (fails : FailsInstead purpose tag outer m m')
  | ended {σ σ₁ : Session} {r r' : Except Error Result} (finish : σ.finish purpose = .done σ₁ r)
    (finish' : σ.finish purpose' = .done σ₁ r') (session : m.session = { σ₁ with calls := outer })
    (settled : m.settled = some (tag, r)) (same : m' = { m with settled := some (tag, r') })

theorem EndsInstead.calls (h : EndsInstead purpose purpose' tag outer m m') :
    m.session.calls = outer ∧ m'.session.calls = outer := by
  cases h with
  | failed fails => exact ⟨fails.calls, fails.same ▸ fails.calls⟩
  | ended finish finish' session settled same =>
    subst same
    exact ⟨congrArg Session.calls session, congrArg Session.calls session⟩

theorem EndsInstead.settled (h : EndsInstead purpose purpose' tag outer m m') :
    (∃ r, m.settled = some (tag, r)) ∧ ∃ r', m'.settled = some (tag, r') := by
  cases h with
  | failed fails =>
    obtain ⟨e, hs⟩ := fails.settled
    exact ⟨⟨_, hs⟩, _, fails.same ▸ hs⟩
  | ended finish finish' session settled same => exact ⟨⟨_, settled⟩, _, congrArg Machine.settled same⟩

/-- Going on from a start, it does not matter what the machine was in the middle of. -/
theorem commence_within (m : Machine) (calls : List Call) (tag : Tag) (held : List Identity)
    (start : Start) : (m.within calls).commence tag held start = m.commence tag held start := by
  cases start <;> rfl

theorem keepResult_within (σ : Session) (calls : List Call) (tag : Tag) (r : Except Error Result) :
    keepResult (σ.within calls) tag r = (keepResult σ tag r).within calls := by
  cases r <;> rfl

/-- When a body ends, the call goes on, or is done with, as if it only now began. -/
theorem finishCall_eq_commence {c : Call} {below : List Call} (hc : m.session.calls = c :: below) :
    m.finishCall c =
      m.commence c.tag c.held ((m.session.finish c.purpose).within below) := by
  have htail := congrArg List.tail ((m.session.calls_finish c.purpose).trans hc)
  unfold finishCall
  cases hf : m.session.finish c.purpose with
  | done σ r =>
    rw [hf] at htail
    simp only [show σ.calls.tail = below from htail]
    rfl
  | enter σ p body =>
    rw [hf] at htail
    simp only [show σ.calls.tail = below from htail]
    rfl

namespace Instead

/-- What a step makes of the two machines: they still differ in the call only, or its body has
failed. Or it is about to end. -/
inductive Next (a a' : Aim) (tag : Tag) (outer : List Call) (m m' : Machine) : Prop
  | still (instead : Instead a a' tag outer m.step m'.step)
  | fails (fails : FailsInstead a.purpose tag outer m.step m'.step)
  | atEnd (atEnd : AtEnd a a' tag outer m m')

/-- A completed statement is settled in both machines. -/
theorem settle (hr : a'.Replaces a) (h : Instead a a' tag outer m m') (t : Tag)
    (r : Except Error Result) :
    Instead a a' tag outer (m.settle t r) (m'.settle t r) ∨
      FailsInstead a.purpose tag outer (m.settle t r) (m'.settle t r) := by
  obtain ⟨calls, hc, rfl⟩ := h
  obtain ⟨handles, saved, hk⟩ := keepResult_eq m.session t r
  have hk' : keepResult (m.within calls).session t r = _ :=
    (keepResult_within m.session calls t r).trans (congrArg (Session.within · calls) hk)
  cases ht : r.bind (·.told m.session.views) with
  | ok told =>
    rw [settle_of_told ht, settle_of_told (m := m.within calls) ht, hk, hk']
    exact .inl ⟨calls, hc, rfl⟩
  | error e =>
    rw [settle_of_raises ht, settle_of_raises (m := m.within calls) ht, hk, hk']
    generalize m.session.calls = cs at hc
    cases hc with
    | inner call below => exact .inl ⟨_, below, rfl⟩
    | call rest index =>
      -- the body that is run has failed
      refine .inr ⟨rfl, ⟨e, rfl⟩, ?_⟩
      show _ = { m with session := _, settled := some (tag, afterError a.purpose e) }
      rw [← hr.afterError]
      rfl

/-- A statement begins in both machines. -/
theorem perform (hr : a'.Replaces a) (h : Instead a a' tag outer m m') (t : Tag)
    (action : Action Datum (List Stmt)) :
    Instead a a' tag outer (m.perform t action) (m'.perform t action) := by
  obtain ⟨calls, hc, rfl⟩ := h
  have hi := hc.interchangeable hr
  have hw : (m.within calls).session.begin action = (m.session.begin action).within calls :=
    Session.begin_within hi action
  cases hb : m.session.begin action with
  | done σ r =>
    have hcalls := m.session.calls_begin action
    rw [hb] at hw hcalls
    rw [perform_done hb, perform_done hw]
    exact ⟨calls, (show σ.calls = _ from hcalls) ▸ hc, rfl⟩
  | enter σ p body =>
    rw [hb] at hw
    rw [perform_enter hb, perform_enter hw,
      show (m.within calls).session.heldBy action = _ from Session.heldBy_within hi action]
    exact ⟨_, .inner _ hc, rfl⟩

/-- The next statement of the body does the same in both machines, once its arguments are worked
out. -/
theorem beginStmt (hr : a'.Replaces a) (h : Instead a a' tag outer m m') (t : Tag)
    (action : Action Expr (List Stmt)) :
    Instead a a' tag outer (m.beginStmt t action) (m'.beginStmt t action) := by
  obtain ⟨calls, hc, rfl⟩ := h
  have hw : Session.evalAction action (m.within calls).session = _ :=
    Session.evalAction_within action m.session calls
  rw [beginStmt_eq, beginStmt_eq, hw]
  cases he : Session.evalAction action m.session with
  | error e => exact ⟨calls, hc, rfl⟩
  | ok p =>
    have hcalls := ((Session.keeps_evalAction action).beside he).calls
    exact perform hr ⟨calls, (show p.2.calls = _ from hcalls) ▸ hc, rfl⟩ t p.1

/-- The body of the innermost call ends in both machines. -/
theorem finishCall (hr : a'.Replaces a) {c : Call} {below calls : List Call}
    (hc : m.session.calls = c :: below) (h : Replaced a a' tag outer below calls) :
    Instead a a' tag outer (m.finishCall c) ((m.within (c :: calls)).finishCall c) := by
  have hi : Interchangeable m.session.calls (c :: calls) :=
    hc ▸ (Replaced.inner c h).interchangeable hr
  have hw : (m.within (c :: calls)).session.finish c.purpose = _ := Session.finish_within hi c.purpose
  rw [finishCall_eq_commence hc, finishCall_eq_commence (m := m.within (c :: calls)) rfl, hw]
  cases m.session.finish c.purpose with
  | done σ r => exact ⟨calls, h, rfl⟩
  | enter σ p body => exact ⟨_, .inner _ h, rfl⟩

/-- After a step the two machines still differ in the call only, unless the body has failed or is
about to end. -/
theorem next (hr : a'.Replaces a) (h : Instead a a' tag outer m m') : Next a a' tag outer m m' := by
  obtain ⟨calls, hc, rfl⟩ := h
  cases m.turn with
  | @settle t r settled step =>
    have hs := settle hr ⟨calls, hc, rfl⟩ t r
    rw [← step, ← step_of_settled (m := m.within calls) settled] at hs
    exact hs.elim .still .fails
  | @begin m₀ t s settled proceeds step =>
    refine .still ?_
    rw [step]
    cases proceeds with
    | script none =>
      rw [none] at hc
      cases hc
    | @body call below s rest cs statements =>
      rw [cs] at hc
      cases hc with
      | call _ index =>
        cases statements
        rw [step_of_rest (m := m.within (a'.call tag (s :: rest) index :: outer)) settled rfl rfl]
        exact beginStmt hr ⟨_, .call rest (index + 1), rfl⟩ _ _
      | @inner _ _ below' hbelow =>
        rw [step_of_rest (m := m.within (call :: below')) settled rfl statements]
        exact beginStmt hr ⟨_, .inner _ hbelow, rfl⟩ _ _
  | @finish call below settled cs ended step =>
    rw [cs] at hc
    cases hc with
    | call _ index =>
      cases ended
      exact .atEnd ⟨settled, index, cs, rfl⟩
    | @inner _ _ below' hbelow =>
      refine .still ?_
      rw [step, step_of_ended (m := m.within (call :: below')) settled rfl ended]
      exact finishCall hr cs hbelow
  | idle settled none =>
    rw [none] at hc
    cases hc

theorem longer (h : Instead a a' tag outer m m') :
    outer.length < m.session.calls.length ∧ outer.length < m'.session.calls.length := by
  obtain ⟨calls, hc, rfl⟩ := h
  exact hc.length_lt

/-- If one of the machines comes to an end of the call, then the body has failed or ended in both
before. -/
theorem exists_end_of_run (hr : a'.Replaces a) (h : Instead a a' tag outer m m') {n : Nat}
    (hn : ¬ (outer.length < (run n m).session.calls.length ∧
      outer.length < (run n m').session.calls.length)) :
    ∃ k, (∀ j ≤ k, Instead a a' tag outer (run j m) (run j m')) ∧
      (FailsInstead a.purpose tag outer (run (k + 1) m) (run (k + 1) m') ∨
        AtEnd a a' tag outer (run k m) (run k m')) := by
  induction n generalizing m m' with
  | zero => exact absurd h.longer hn
  | succ n ih =>
    have only (j : Nat) (hj : j ≤ 0) : Instead a a' tag outer (run j m) (run j m') := by
      rw [Nat.le_zero.1 hj]
      exact h
    cases next hr h with
    | still instead =>
      rw [run_succ, run_succ] at hn
      obtain ⟨k, hall, hk⟩ := ih instead hn
      refine ⟨k + 1, fun j hj => ?_, ?_⟩
      · cases j with
        | zero => exact h
        | succ j =>
          rw [run_succ, run_succ]
          exact hall j (Nat.le_of_succ_le_succ hj)
      · rwa [run_succ (k + 1) m, run_succ (k + 1) m', run_succ k m, run_succ k m']
    | fails fails =>
      refine ⟨0, only, .inl ?_⟩
      rwa [run_succ, run_succ]
    | atEnd atEnd => exact ⟨0, only, .inr atEnd⟩

/-- If one of the statements is completed, then the two machines go along with each other until they
fail or their bodies end. -/
theorem exists_end (hr : a'.Replaces a) (h : Instead a a' tag outer m m') {t : Tag}
    {r : Except Error Result} {m₁ : Machine}
    (hp : m.Completes t outer r m₁ ∨ m'.Completes t outer r m₁) :
    ∃ k, (∀ j ≤ k, Instead a a' tag outer (run j m) (run j m')) ∧
      (FailsInstead a.purpose tag outer (run (k + 1) m) (run (k + 1) m') ∨
        AtEnd a a' tag outer (run k m) (run k m')) := by
  rcases hp with ⟨n, rfl, -, hc, -⟩ | ⟨n, rfl, -, hc, -⟩
  · exact h.exists_end_of_run hr (n := n) fun hl => Nat.lt_irrefl _ (hc ▸ hl.1)
  · exact h.exists_end_of_run hr (n := n) fun hl => Nat.lt_irrefl _ (hc ▸ hl.2)

end Instead

/-- The body ends: both machines go on from there with what they make of it. -/
theorem AtEnd.step_eq (h : AtEnd a a' tag outer m m') :
    m.step = m.commence tag a.held ((m.session.finish a.purpose).within outer) ∧
      m'.step = m.commence tag a'.held ((m'.session.finish a'.purpose).within outer) := by
  obtain ⟨settled, index, hc, rfl⟩ := h
  constructor
  · rw [step_of_ended settled hc rfl, finishCall_eq_commence hc]
    rfl
  · rw [step_of_ended (m := m.within (a'.call tag [] index :: outer)) settled rfl rfl,
      finishCall_eq_commence rfl, commence_within]
    rfl

/-- Both purposes make the same of it. -/
theorem AtEnd.step (hr : a'.Replaces a) (he : a'.purpose.EndsLike a.purpose)
    (h : AtEnd a a' tag outer m m') :
    EndsInstead a.purpose a'.purpose tag outer m.step m'.step := by
  obtain ⟨hs, hs'⟩ := h.step_eq
  obtain ⟨-, index, hc, rfl⟩ := h
  have hi : Interchangeable m.session.calls (a'.call tag [] index :: outer) :=
    hc ▸ (Replaced.call [] index).interchangeable hr
  obtain ⟨σ₁, r, r', hf, hf'⟩ := he m.session
  have hw : (m.within (a'.call tag [] index :: outer)).session.finish a'.purpose =
      .done (σ₁.within (a'.call tag [] index :: outer)) r' :=
    (Session.finish_within hi a'.purpose).trans (congrArg (Start.within _) hf')
  rw [hf] at hs
  rw [hw] at hs'
  rw [hs, hs']
  exact .ended hf hf' rfl rfl rfl

/-- After a step the two machines still differ in the call only, or it is over in both. -/
theorem Instead.step (hr : a'.Replaces a) (he : a'.purpose.EndsLike a.purpose)
    (h : Instead a a' tag outer m m') :
    Instead a a' tag outer m.step m'.step ∨
      EndsInstead a.purpose a'.purpose tag outer m.step m'.step := by
  cases h.next hr with
  | still instead => exact .inl instead
  | fails fails => exact .inr (.failed fails)
  | atEnd atEnd => exact .inr (atEnd.step hr he)

/-- Until then they go on side by side. -/
theorem Instead.lockstep (hr : a'.Replaces a) (he : a'.purpose.EndsLike a.purpose) (tag : Tag)
    (outer : List Call) :
    Lockstep (Instead a a' tag outer) (EndsInstead a.purpose a'.purpose tag outer) outer outer
      tag tag where
  step := step hr he
  longer := longer
  calls := EndsInstead.calls
  settled := EndsInstead.settled

variable {action action' : Action Datum (List Stmt)} {r : Except Error Result} {m₁ : Machine}

/-- Two statements that run the same body leave the same behind but for their results. -/
theorem corresponds_instead {σ : Session} {body : List Stmt}
    (hb : m.session.begin action = .enter σ purpose body)
    (hb' : m.session.begin action' = .enter σ purpose' body)
    (hr : Aim.Replaces ⟨purpose', m.session.heldBy action'⟩ ⟨purpose, m.session.heldBy action⟩)
    (he : purpose'.EndsLike purpose) (tag : Tag) :
    m.Corresponds m tag tag action action' fun m₁ m₁' r r' =>
      EndsInstead purpose purpose' tag m.session.calls m₁ m₁' ∧ m₁.settled = some (tag, r) ∧
        m₁'.settled = some (tag, r') := by
  refine (Instead.lockstep hr he tag m.session.calls).corresponds ?_
    fun _ _ _ _ ends hs hs' => ⟨ends, hs, hs'⟩
  rw [perform_enter hb, perform_enter hb']
  exact ⟨_, .call body 0, rfl⟩

/-- If both give the same, the two machines come to be the same. -/
theorem EndsInstead.eq (h : EndsInstead purpose purpose' tag outer m m')
    (hf : ∀ σ : Session, σ.finish purpose' = σ.finish purpose) : m = m' := by
  cases h with
  | failed fails => exact fails.same.symm
  | ended finish finish' session settled same =>
    cases (hf _).symm.trans finish' |>.symm.trans finish
    rw [same, ← settled]

/-- What the two machines come to is the same. -/
theorem Instead.completes_iff (hr : a'.Replaces a) (steady : a.purpose.Steady)
    (hf : ∀ σ : Session, σ.finish a'.purpose = σ.finish a.purpose)
    (h : Instead a a' tag outer m m') :
    m.Completes tag outer r m₁ ↔ m'.Completes tag outer r m₁ := by
  have lock := Instead.lockstep hr (steady.endsLike hf) tag outer
  constructor
  · intro hp
    obtain ⟨r', _, hp', ends⟩ := lock.completes h hp
    cases ends.eq hf
    cases hp.settled.symm.trans hp'.settled
    exact hp'
  · intro hp'
    obtain ⟨r', _, hp, ends⟩ := lock.flip.completes h hp'
    cases ends.eq hf
    cases hp.settled.symm.trans hp'.settled
    exact hp

/-- Two statements that begin in the same way come to the same. -/
theorem performs_iff (hb : m.session.begin action' = m.session.begin action)
    (steady : ∀ σ p body, m.session.begin action = .enter σ p body → p.Steady)
    (kept : ∀ i, i ∈ m.session.heldBy action' ↔ i ∈ m.session.heldBy action) :
    m.Performs tag action r m₁ ↔ m.Performs tag action' r m₁ := by
  show (m.perform tag action).Completes tag m.session.calls r m₁ ↔
    (m.perform tag action').Completes tag m.session.calls r m₁
  cases hs : m.session.begin action with
  | done σ r => rw [perform_done hs, perform_done (hb.trans hs)]
  | enter σ p body =>
    refine Instead.completes_iff (.of_held p kept) (steady σ p body hs) (fun _ => rfl) ?_
    rw [perform_enter hs, perform_enter (hb.trans hs)]
    exact ⟨_, .call body 0, rfl⟩

end Machine

end RuleTree
