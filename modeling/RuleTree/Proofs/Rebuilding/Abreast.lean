import RuleTree.Proofs.Rebuilding.Statements
import RuleTree.Proofs.Sheets.Living

/-!
# Two machines side by side

* `Ground.Abreast`: two machines in the middle of the same body, each run on its own root;
* `Machine.Fails`: a statement that has just failed;
* `Ground.Pace`, `Ground.Abreast.step`, `Ground.Pace.cases_on`: after a step they are still side by side, or the body has
  ended in both, or the comparison is not closed and a statement has failed in the second one.

Both machines take the same number of steps.
-/

namespace RuleTree

namespace Machine

/-- A statement has failed, or its result cannot be told. -/
def Fails (m : Machine) : Prop :=
  ∃ tag r e, m.settled = some (tag, r) ∧ r.bind (·.told m.session.views) = .error e

/-- Failing can be found out by telling the result. -/
theorem fails_iff {m : Machine} : m.Fails ↔
    (m.settled.any fun s => !(s.2.bind (·.told m.session.views)).toBool) = true := by
  rw [Option.any_eq_true]
  constructor
  · rintro ⟨tag, r, e, hs, he⟩
    exact ⟨_, hs, by rw [he]; rfl⟩
  · rintro ⟨⟨tag, r⟩, hs, he⟩
    cases hr : r.bind (·.told m.session.views) with
    | error e => exact ⟨tag, r, e, hs, hr⟩
    | ok a =>
      rw [show (tag, r).2 = r from rfl, hr] at he
      cases he

instance (m : Machine) : Decidable m.Fails := decidable_of_iff _ fails_iff.symm

theorem keepResult_of_bare {tag : Tag} (h : tag.Bare) (σ : Session) (r : Except Error Result) :
    keepResult σ tag r = σ := by
  unfold keepResult
  cases r with
  | error e => rfl
  | ok result =>
    unfold keep
    rw [h.handle, h.saved]

end Machine

namespace Ground

variable {γ : Ground} {closed : Prop} {σ σ' σ₁ σ₁' σ₂ σ₂' : Session} {m m' : Machine}
  {subjects : List (Option NodeId)} {cs cs' : List Call}

/-- What was just completed in both: nothing, or a statement of the body. -/
inductive SettledTwin (γ : Ground) (σ σ' : Session) :
    Option (Tag × Except Error Result) → Option (Tag × Except Error Result) → Prop
  | none : SettledTwin γ σ σ' none none
  | some {tag tag' : Tag} {r r' : Except Error Result} (bare : tag.Bare) (bare' : tag'.Bare)
    (told : Agreed γ.lead (r.bind (·.told σ.views)) (r'.bind (·.told σ'.views))) :
    SettledTwin γ σ σ' (some (tag, r)) (some (tag', r'))

/-- Two machines in the middle of the same body. -/
structure Abreast (γ : Ground) (m m' : Machine) : Prop where
  twins : γ.Twins m.session m'.session
  frames : ∃ subjects, Frames γ m.session m'.session subjects m.session.calls m'.session.calls
  settled : SettledTwin γ m.session m'.session m.settled m'.settled

/-- What a step makes of two machines side by side. -/
inductive Pace (γ : Ground) (closed : Prop) (m m' : Machine) : Prop
  | abreast (h : γ.Abreast m.step m'.step)
  /-- the body has failed -/
  | raised (e : Error) (twins : γ.Twins m.step.session m'.step.session)
    (calls : m.step.session.calls = γ.outer) (calls' : m'.step.session.calls = γ.outer')
    (settled : m.step.settled = some (γ.tag, Machine.afterError γ.purpose (e.led γ.lead)))
    (settled' : m'.step.settled = some (γ.tag', Machine.afterError γ.purpose' e))
  /-- the body has come to its end -/
  | ended {c c' : Call} (twins : γ.Twins m.session m'.session)
    (calls : m.session.calls = c :: γ.outer) (calls' : m'.session.calls = c' :: γ.outer')
    (purpose : c.purpose = γ.purpose) (purpose' : c'.purpose = γ.purpose') (tag : c.tag = γ.tag)
    (tag' : c'.tag = γ.tag') (step : m.step = m.finishCall c) (step' : m'.step = m'.finishCall c')
  /-- a statement of the body has failed in the second machine -/
  | fails (ajar : ¬closed) (h : m'.step.Fails)
    (inside : γ.outer'.length < m'.step.session.calls.length)

/-! ### Parts of sessions that do not matter -/

/-- The calls and the trace do not matter. -/
theorem Twins.kept (h : γ.Twins σ σ') {calls calls' : List Call} {trace trace' : Array TraceEntry} :
    γ.Onward σ σ' { σ with calls, trace } { σ' with calls := calls', trace := trace' } where
  left := .of_kept rfl
  right := .of_kept rfl
  store := h.store

theorem Twins.of_beside (h : γ.Twins σ σ') (hg : σ.Beside σ₁) (hg' : σ'.Beside σ₁') :
    γ.Onward σ σ' σ₁ σ₁' where
  left := .of_beside hg
  right := .of_beside hg'
  store := by
    rw [hg.store, hg'.store]
    exact h.store

theorem Onward.later (h : γ.Onward σ σ' σ₁ σ₁') {events : List Event}
    (ht : σ'.store.Trail events σ₁'.store) : Later σ σ' σ₁ σ₁' :=
  ⟨h.left, h.right, ht.next_le, fun _ hn => (ht.madeAs hn).parent⟩

theorem Onward.later_of_eq (h : γ.Onward σ σ' σ₁ σ₁') (hs : σ₁'.store = σ'.store) :
    Later σ σ' σ₁ σ₁' := by
  have ht : σ'.store.Trail [] σ₁'.store := by
    rw [hs]
    exact .nil _
  exact h.later ht

theorem Shut.of_living (h : Shut γ closed σ σ') (hl : σ₁.living = σ.living)
    (hs : σ₁.store = σ.store) (hl' : σ₁'.living = σ'.living) (hs' : σ₁'.store = σ'.store) :
    Shut γ closed σ₁ σ₁' := by
  have key {σ σ₁ : Session} (hl : σ₁.living = σ.living) (hs : σ₁.store = σ.store) (n : NodeId)
      (name : String) : σ₁.seesAbove n name = σ.seesAbove n name := by
    unfold Session.seesAbove Session.sees Session.chain Session.parent? Session.alive
    rw [hl, hs]
  refine ⟨fun name => ?_, fun hc name => ?_⟩
  · rw [key hl hs, key hl' hs']
    exact h.up name
  · rw [key hl hs, key hl' hs']
    exact h.same hc name

/-- Working out arguments changes nothing of what is alive. -/
theorem living_of_beside (hg : σ.Beside σ₁) : σ₁.living = σ.living := by
  obtain ⟨_, _, _, -, rfl⟩ := hg
  exact Session.living_congr rfl rfl rfl rfl

/-- Moving on in a body changes nothing of what is alive. -/
theorem living_advanced {call : Call} {below : List Call} {rest : List Stmt} {index : Nat}
    (hc : σ.calls = call :: below) :
    ({ σ with calls := { call with rest, index } :: below } : Session).living = σ.living := by
  refine Session.living_congr ?_ rfl rfl ?_
  · unfold Session.roots
    rw [hc]
    rfl
  · unfold Session.openEntries Session.openRegistries
    rw [hc]
    rfl

theorem Frames.length_lt (h : Frames γ σ σ' subjects cs cs') :
    γ.outer.length < cs.length ∧ γ.outer'.length < cs'.length := by
  induction h with
  | root => exact ⟨Nat.lt_succ_self _, Nat.lt_succ_self _⟩
  | inner _ _ _ _ _ _ ih => exact ⟨Nat.lt_succ_of_lt ih.1, Nat.lt_succ_of_lt ih.2⟩

theorem Frames.outer_subset (h : Frames γ σ σ' subjects cs cs') :
    γ.outer ⊆ cs ∧ γ.outer' ⊆ cs' := by
  induction h with
  | root => exact ⟨List.subset_cons_self _ _, List.subset_cons_self _ _⟩
  | inner _ _ _ _ _ _ ih =>
    exact ⟨List.subset_cons_of_subset _ ih.1, List.subset_cons_of_subset _ ih.2⟩

/-! ### Statements of the body -/

/-- Being side by side, unless the comparison is not closed and a statement has failed in the second
machine. -/
def Follows (γ : Ground) (closed : Prop) (m m' : Machine) : Prop :=
  γ.Abreast m m' ∨ ¬closed ∧ m'.Fails ∧ γ.outer'.length < m'.session.calls.length

theorem follows_perform (m m' : Machine) (hf : γ.Fit closed) (h : γ.Twins m.session m'.session)
    (hc : Frames γ m.session m'.session subjects m.session.calls m'.session.calls)
    (hs : Shut γ closed m.session m'.session) (hn : m.settled = none) (hn' : m'.settled = none)
    {tag tag' : Tag} (hb : tag.Bare) (hb' : tag'.Bare) {action action' : Action Datum (List Stmt)}
    (ha : ActionTwin γ.bodies (γ.right.MayName γ.bodies γ.className) subjects.length m.session
      m'.session action action') :
    γ.Follows closed (m.perform tag action) (m'.perform tag' action') := by
  have hw' : action'.walks = false := by cases ha <;> rfl
  have hst := h.begin hf hc hs ha
  have htrail := (m'.session.does_begin action' hw').turns.trail
  have hk := m.session.calls_begin action
  have hk' := m'.session.calls_begin action'
  unfold Machine.perform
  generalize m.session.begin action = st at hst hk
  generalize m'.session.begin action' = st' at hst htrail hk'
  cases hst with
  | @done σ σ' r r' ho told =>
    refine .inl ⟨h.onward ho, ⟨subjects, ?_⟩, .some hb hb' told⟩
    show Frames γ σ σ' subjects σ.calls σ'.calls
    rw [show σ.calls = _ from hk, show σ'.calls = _ from hk']
    exact hc.later (ho.later htrail)
  | @enter σ σ' purpose purpose' pushed body ho purposes contained =>
    have ho₁ : γ.Onward σ σ'
        { σ with calls := ⟨purpose, tag, body, 0, m.session.heldBy action⟩ :: σ.calls }
        { σ' with calls := ⟨purpose', tag', body, 0, m'.session.heldBy action'⟩ :: σ'.calls } :=
      (h.onward ho).kept
    have hl := ho₁.later_of_eq rfl
    refine .inl ⟨(h.onward ho).onward ho₁, ⟨pushed ++ subjects, .inner ?_ (purposes.later hl) rfl
      (hf.closes _ _ contained) hb hb'⟩, ?_⟩
    · rw [show σ.calls = _ from hk, show σ'.calls = _ from hk']
      exact (hc.later (ho.later htrail)).later hl
    · show SettledTwin γ _ _ m.settled m'.settled
      rw [hn, hn']
      exact .none
  | fails st σ₁' e ajar =>
    refine .inr ⟨ajar, ⟨_, _, e, rfl, rfl⟩, ?_⟩
    show γ.outer'.length < σ₁'.calls.length
    rw [show σ₁'.calls = _ from hk']
    exact hc.length_lt.2

theorem follows_beginStmt (m m' : Machine) (hf : γ.Fit closed) (h : γ.Twins m.session m'.session)
    (hc : Frames γ m.session m'.session subjects m.session.calls m'.session.calls)
    (hs : Shut γ closed m.session m'.session) (hn : m.settled = none) (hn' : m'.settled = none)
    {s : Stmt} (hcon : γ.Contained subjects.length s)
    (path path' : Path) :
    γ.Follows closed (m.beginStmt (Machine.tagOf path s) s.action)
      (m'.beginStmt (Machine.tagOf path' s) s.action) := by
  have bare (path : Path) : (Machine.tagOf path s).Bare := ⟨hcon.handle, hcon.saved⟩
  have hgen : m.session.generators = γ.right.generators := by
    rw [h.left.generators, hf.generators]
  rw [Machine.beginStmt_eq, Machine.beginStmt_eq]
  have htwin := Session.evalAction_contained (hgen ▸ hcon.action) (h.generators hf)
  rcases htwin with
    ⟨e, he, he'⟩ | ⟨a, a', σ₁, σ₁', he, he', hg, hg', ha⟩
  · have hp := Session.evalAction_plain _ _ e he'
    rw [he, he']
    exact .inl ⟨h, ⟨_, hc⟩, .some (bare _) (bare _) (Agree.agreed (.error e) (.error hp) γ.lead)⟩
  · rw [he, he']
    have ho := h.of_beside hg hg'
    refine follows_perform { m with session := σ₁ } { m' with session := σ₁' } hf (h.onward ho) ?_ ?_
      hn hn' (bare _) (bare _) ha
    · show Frames γ σ₁ σ₁' subjects σ₁.calls σ₁'.calls
      rw [hg.calls, hg'.calls]
      exact hc.later (ho.later_of_eq hg'.store)
    · exact hs.of_living (living_of_beside hg) hg.store (living_of_beside hg') hg'.store

/-! ### Steps -/

/-- The calls that stand on top in both. -/
theorem Frames.head (h : Frames γ σ σ' subjects cs cs') :
    ∃ c c' below below', cs = c :: below ∧ cs' = c' :: below' ∧ c.rest = c'.rest ∧
      (∀ s ∈ c'.rest, γ.Contained subjects.length s) ∧
      ∀ rest i i', (∀ s ∈ rest, γ.Contained subjects.length s) →
        Frames γ σ σ' subjects ({ c with rest, index := i } :: below)
          ({ c' with rest, index := i' } :: below') := by
  cases h with
  | root rest contained purpose purpose' tag tag' =>
    exact ⟨_, _, _, _, rfl, rfl, rest, contained, fun _ _ _ hr =>
      .root rfl hr purpose purpose' tag tag'⟩
  | inner below purpose rest contained tag tag' =>
    exact ⟨_, _, _, _, rfl, rfl, rest, contained, fun _ _ _ hr =>
      .inner below purpose rfl hr tag tag'⟩

/-- A statement fails alike when its body does. -/
theorem PurposeTwin.afterError {purpose purpose' : Purpose} {pushed : List (Option NodeId)}
    (h : PurposeTwin γ σ σ' subjects purpose purpose' pushed) (e : Error) (views views' : Views) :
    Agreed γ.lead ((Machine.afterError purpose (e.led γ.lead)).bind (·.told views))
      ((Machine.afterError purpose' e).bind (·.told views')) := by
  cases h with
  | attempt => exact .ok _ _
  | _ => exact .error e

/-- A completed statement of the body is settled. -/
theorem pace_of_settled (h : γ.Twins m.session m'.session)
    (hc : Frames γ m.session m'.session subjects m.session.calls m'.session.calls)
    {tag tag' : Tag} {r r' : Except Error Result} (hs : m.settled = some (tag, r))
    (hs' : m'.settled = some (tag', r')) (hb : tag.Bare) (hb' : tag'.Bare)
    (ht : Agreed γ.lead (r.bind (·.told m.session.views)) (r'.bind (·.told m'.session.views))) :
    Pace γ closed m m' := by
  have step : m.step = m.settle tag r := Machine.step_of_settled hs
  have step' : m'.step = m'.settle tag' r' := Machine.step_of_settled hs'
  unfold Machine.settle at step step'
  rw [Machine.keepResult_of_bare hb] at step
  rw [Machine.keepResult_of_bare hb'] at step'
  simp only at step step'
  generalize hσ : Machine.record m.session tag (r.bind (·.told m.session.views)) = σ at step
  generalize hσ' : Machine.record m'.session tag' (r'.bind (·.told m'.session.views)) = σ' at step'
  have ho : γ.Onward m.session m'.session σ σ' := by
    subst hσ hσ'
    exact h.kept
  have hst' : σ'.store = m'.session.store := hσ' ▸ rfl
  have hcalls : σ.calls = m.session.calls := hσ ▸ rfl
  have hcalls' : σ'.calls = m'.session.calls := hσ' ▸ rfl
  have hfr := hc.later (ho.later_of_eq hst')
  rw [← hcalls, ← hcalls'] at hfr
  have htw := h.onward ho
  rcases ht.cases_on with ⟨e, he, he'⟩ | ⟨a, b, ha, hb⟩
  · rw [he] at step
    rw [he'] at step'
    -- the body that the statement is in fails as well
    generalize hcs : σ.calls = cs at hfr
    generalize hcs' : σ'.calls = cs' at hfr
    simp only [hcs] at step
    simp only [hcs'] at step'
    have hpop (below below' : List Call) : γ.Onward σ σ' { σ with calls := below }
        { σ' with calls := below' } := htw.kept
    cases hfr with
    | root rest contained purpose purpose' tag tag' =>
      refine .raised e ?_ (by rw [step]) (by rw [step']) ?_ ?_
      · rw [step, step']
        exact htw.onward (hpop _ _)
      · rw [step, ← purpose, ← tag]
      · rw [step', ← purpose', ← tag']
    | inner below purpose rest contained tag tag' =>
      refine .abreast ?_
      rw [step, step']
      exact ⟨htw.onward (hpop _ _), ⟨_, below.later ((hpop _ _).later_of_eq rfl)⟩,
        .some tag tag' (purpose.afterError e _ _)⟩
  · rw [ha] at step
    rw [hb] at step'
    refine .abreast ?_
    rw [step, step']
    exact ⟨htw, ⟨_, hfr⟩, .none⟩

/-- The body of a call on top of the roots has come to its end. -/
theorem follows_finishCall (hf : γ.Fit closed) (h : γ.Twins m.session m'.session) {c c' : Call}
    {below below' : List Call} {pushed : List (Option NodeId)}
    (hc : Frames γ m.session m'.session subjects below below')
    (hp : PurposeTwin γ m.session m'.session subjects c.purpose c'.purpose pushed)
    (ht : c.tag.Bare) (ht' : c'.tag.Bare) (calls : m.session.calls = c :: below)
    (calls' : m'.session.calls = c' :: below') (hn : m.settled = none) (hn' : m'.settled = none)
    {events : List Event}
    (htrail : m'.session.store.Trail events (m'.finishCall c').session.store) :
    γ.Follows closed (m.finishCall c) (m'.finishCall c') := by
  have hst := h.finish hf (fun n hn => hc.inner_of_mem hn) hp
  have hk := m.session.calls_finish c.purpose
  have hk' := m'.session.calls_finish c'.purpose
  unfold Machine.finishCall at htrail ⊢
  generalize m.session.finish c.purpose = st at hst hk
  generalize m'.session.finish c'.purpose = st' at hst htrail hk'
  rw [calls] at hk
  rw [calls'] at hk'
  cases hst with
  | @done σ σ' r r' ho told =>
    have ho₁ : γ.Onward σ σ' { σ with calls := σ.calls.tail } { σ' with calls := σ'.calls.tail } :=
      (h.onward ho).kept
    refine .inl ⟨(h.onward ho).onward ho₁, ⟨subjects, ?_⟩, .some ht ht' told⟩
    show Frames γ _ _ subjects σ.calls.tail σ'.calls.tail
    rw [show σ.calls = _ from hk, show σ'.calls = _ from hk']
    exact hc.later ((ho.trans ho₁).later htrail)
  | @enter σ σ' purpose purpose' pushed body ho purposes contained =>
    have ho₁ : γ.Onward σ σ'
        { σ with calls := { c with purpose, rest := body, index := 0 } :: σ.calls.tail }
        { σ' with
          calls := { c' with purpose := purpose', rest := body, index := 0 } :: σ'.calls.tail } :=
      (h.onward ho).kept
    refine .inl ⟨(h.onward ho).onward ho₁, ⟨pushed ++ subjects, .inner ?_
      (purposes.later (ho₁.later_of_eq rfl)) rfl (hf.closes _ _ contained) ht ht'⟩, ?_⟩
    · rw [show σ.calls = _ from hk, show σ'.calls = _ from hk']
      exact hc.later ((ho.trans ho₁).later htrail)
    · show SettledTwin γ _ _ m.settled m'.settled
      rw [hn, hn']
      exact .none
  | fails st σ₁' e ajar =>
    refine .inr ⟨ajar, ⟨_, _, e, rfl, rfl⟩, ?_⟩
    show γ.outer'.length < σ₁'.calls.tail.length
    rw [show σ₁'.calls = _ from hk']
    exact hc.length_lt.2

/-- A step of two machines side by side. -/
theorem Abreast.step (hf : γ.Fit closed) (h : γ.Abreast m m')
    (hs : Shut γ closed m.session m'.session) : Pace γ closed m m' := by
  obtain ⟨htw, ⟨subjects, hc⟩, hset⟩ := h
  generalize hsm : m.settled = settled at hset
  generalize hsm' : m'.settled = settled' at hset
  cases hset with
  | some bare bare' told => exact pace_of_settled htw hc hsm hsm' bare bare' told
  | none =>
    have follow {x x' : Machine} (hx : m.step = x) (hx' : m'.step = x')
        (hfo : γ.Follows closed x x') : Pace γ closed m m' := by
      subst hx hx'
      exact hfo.elim .abreast fun hfa => .fails hfa.1 hfa.2.1 hfa.2.2
    obtain ⟨c, c', below, below', calls, calls', hrest, hcon, moved⟩ := hc.head
    cases hr : c'.rest with
    | cons s rest =>
      have hr' : c.rest = s :: rest := hrest.trans hr
      rw [hr] at hcon
      let σ : Session := { m.session with
        calls := { c with rest, index := c.index + 1 } :: below }
      let σ' : Session := { m'.session with
        calls := { c' with rest, index := c'.index + 1 } :: below' }
      have ho : γ.Onward m.session m'.session σ σ' := htw.kept
      refine follow (Machine.step_of_rest hsm calls hr') (Machine.step_of_rest hsm' calls' hr)
        (follows_beginStmt { m with session := σ } { m' with session := σ' } hf (htw.onward ho) ?_ ?_
          hsm hsm' (hcon s List.mem_cons_self) _ _)
      · exact (moved rest _ _ fun x hx => hcon x (List.mem_cons_of_mem _ hx)).later
          (ho.later_of_eq rfl)
      · exact hs.of_living (living_advanced calls) rfl (living_advanced calls') rfl
    | nil =>
      have hr' : c.rest = [] := hrest.trans hr
      have step : m.step = m.finishCall c := Machine.step_of_ended hsm calls hr'
      have step' : m'.step = m'.finishCall c' := Machine.step_of_ended hsm' calls' hr
      have htrail : m'.session.store.Trail (Machine.history 1 m')
          (m'.finishCall c').session.store := by
        rw [← step', ← show Machine.run 1 m' = m'.step from Machine.run_step 0 m']
        exact Machine.trail_history 1 m'
      generalize hcs : m.session.calls = cs at hc
      generalize hcs' : m'.session.calls = cs' at hc
      cases hc with
      | root rest contained purpose purpose' tag tag' =>
        cases hcs.symm.trans calls
        cases hcs'.symm.trans calls'
        exact .ended htw calls calls' purpose purpose' tag tag' step step'
      | inner hbelow purpose rest contained tag tag' =>
        cases hcs.symm.trans calls
        cases hcs'.symm.trans calls'
        exact follow step step'
          (follows_finishCall hf htw hbelow purpose tag tag' calls calls' hsm hsm' htrail)

/-! ### Runs -/

/-- The body of a call has come to its end in a session, and the call is done with. -/
structure Ended (σ : Session) (purpose : Purpose) (tag : Tag) (outer : List Call) (m : Machine)
    (σ₁ : Session) (r : Except Error Result) : Prop where
  finish : σ.finish purpose = .done σ₁ r
  session : m.session = { σ₁ with calls := outer }
  settled : m.settled = some (tag, r)

/-- The body is over in both machines. -/
inductive Over (γ : Ground) (m m' : Machine) : Prop
  /-- it has failed -/
  | raised (e : Error) (settled : m.settled = some (γ.tag, .error (e.led γ.lead)))
    (settled' : m'.settled = some (γ.tag', .error e)) (calls : m.session.calls = γ.outer)
    (calls' : m'.session.calls = γ.outer')
  /-- it has come to its end -/
  | given {σ σ' σ₁ σ₁' : Session} {r r' : Except Error Result} (twins : γ.Twins σ σ')
    (left : Ended σ γ.purpose γ.tag γ.outer m σ₁ r)
    (right : Ended σ' γ.purpose' γ.tag' γ.outer' m' σ₁' r')

theorem Over.calls (h : γ.Over m m') :
    m.session.calls = γ.outer ∧ m'.session.calls = γ.outer' := by
  cases h with
  | raised e _ _ calls calls' => exact ⟨calls, calls'⟩
  | given _ left right => exact ⟨by rw [left.session], by rw [right.session]⟩

/-- What is given back once the body has ended. -/
theorem ended_of_fills {purpose : Purpose} {n : NodeId} (h : purpose.Fills n) {c : Call}
    {below : List Call} (hc : m.session.calls = c :: below) (hp : c.purpose = purpose) :
    ∃ σ₁ r, Ended m.session purpose c.tag below (m.finishCall c) σ₁ r := by
  have ht : m.session.calls.tail = below := by rw [hc, List.tail_cons]
  unfold Machine.finishCall
  rw [hp]
  subst ht
  cases h <;> exact ⟨_, _, rfl, rfl, rfl⟩

/-- After a step two machines are still side by side, or the body is over in both, or a statement of it
has failed in the second one. -/
theorem Pace.cases_on (h : Pace γ closed m m') : γ.Abreast m.step m'.step ∨ γ.Over m.step m'.step ∨
    ¬closed ∧ m'.step.Fails ∧ γ.outer'.length < m'.step.session.calls.length := by
  cases h with
  | abreast h => exact .inl h
  | raised e _ calls calls' settled settled' =>
    have error {purpose : Purpose} {n : NodeId} (hg : purpose.Fills n) (e : Error) :
        Machine.afterError purpose e = .error e := by
      cases hg <;> rfl
    rw [error γ.fills] at settled
    rw [error γ.fills'] at settled'
    exact .inr (.inl (.raised e settled settled' calls calls'))
  | @ended c c' twins calls calls' purpose purpose' tag tag' step step' =>
    obtain ⟨_, _, left⟩ := ended_of_fills γ.fills calls purpose
    obtain ⟨_, _, right⟩ := ended_of_fills γ.fills' calls' purpose'
    rw [← step, tag] at left
    rw [← step', tag'] at right
    exact .inr (.inl (.given twins left right))
  | fails ajar hfa inside => exact .inr (.inr ⟨ajar, hfa, inside⟩)

/-- The body is run in both machines until it is over in both, unless the comparison is not closed
and a statement fails in the second one. -/
theorem Abreast.run (hf : γ.Fit closed) (h : γ.Abreast m m')
    (hs : ∀ i, γ.Abreast (Machine.run i m) (Machine.run i m') →
      Shut γ closed (Machine.run i m).session (Machine.run i m').session) (k : Nat)
    (smooth : ∀ j ≤ k, γ.outer'.length < (Machine.run j m').session.calls.length →
      closed ∨ ¬ (Machine.run j m').Fails) :
    (∀ i ≤ k, γ.Abreast (Machine.run i m) (Machine.run i m')) ∨
      ∃ j < k, (∀ i ≤ j, γ.Abreast (Machine.run i m) (Machine.run i m')) ∧
        γ.Over (Machine.run (j + 1) m) (Machine.run (j + 1) m') := by
  induction k with
  | zero =>
    refine .inl fun i hi => ?_
    cases Nat.le_zero.1 hi
    exact h
  | succ k ih =>
    rcases ih fun j hj => smooth j (Nat.le_succ_of_le hj) with hall | ⟨j, hj, hall, ho⟩
    · have hk := hall k (Nat.le_refl k)
      rcases (hk.step hf (hs k hk)).cases_on with hnext | ho | ⟨ajar, hfa, inside⟩
      · refine .inl fun i hi => ?_
        rcases Nat.le_succ_iff.1 hi with hi | rfl
        · exact hall i hi
        · rw [Machine.run_step, Machine.run_step]
          exact hnext
      · refine .inr ⟨k, Nat.lt_succ_self k, hall, ?_⟩
        rw [Machine.run_step, Machine.run_step]
        exact ho
      · rw [← Machine.run_step] at hfa inside
        exact absurd hfa ((smooth (k + 1) (Nat.le_refl _) inside).resolve_left ajar)
    · exact .inr ⟨j, Nat.lt_succ_of_lt hj, hall, ho⟩

end Ground

end RuleTree
