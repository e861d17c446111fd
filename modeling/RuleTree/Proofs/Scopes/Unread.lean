import RuleTree.Proofs.Failure.Unwinding
import RuleTree.Proofs.Scopes.Begun
import RuleTree.Proofs.Sheets.Latest

/-!
# Values of custom properties that nothing reads

* `Machine.discreet`: a state in which no tree writes its custom properties, and in which no
  statement begins that reads a scope back;
* `Machine.defines`: a state in which a definition begins;
* `Machine.Tallies`: states of two runs that differ in the values in scopes only, apart from numbers
  and from values that are still to be defined;
* `Machine.Defined`, `Machine.defined_of_beginStmt`: what a definition does, whatever its value;
* `Machine.Tallies.step`, `Machine.Tallies.run`: such states lead to such states, as long as the same
  definitions fail;
* `Machine.ShowsAlike`, `Machine.scope_values_unread`: so two scripts that differ in the values of
  definitions show the same at all times;
* `Machine.failing_value_shows_widening`: but a value shows if it cannot be defined at all.

Which definitions fail is all that a value decides. What is told of a definition is the scope after
it, and that is the only place where values show.
-/

namespace RuleTree

/-! ### Definitions among the statements -/

namespace Session.Eval

variable {α β γ : Type}

/-- Having only values with a given property. -/
structure Yields (P : α → Prop) (c : Eval α) : Prop where
  holds {σ σ₁ : Session} {a : α} : c σ = .ok (a, σ₁) → P a

theorem Yields.pure {P : α → Prop} {a : α} (h : P a) : Yields P (Pure.pure a : Eval α) := by
  refine ⟨fun hc => ?_⟩
  cases hc
  exact h

theorem Yields.bind {P : β → Prop} {c : Eval α} {f : α → Eval β} (h : ∀ a, Yields P (f a)) :
    Yields P (c >>= f) := by
  refine ⟨fun {σ σ₁ b} hc => ?_⟩
  have hc : (c σ >>= fun p => f p.1 p.2) = .ok (b, σ₁) := hc
  cases hs : c σ with
  | error e => rw [hs] at hc; cases hc
  | ok p =>
    rw [hs] at hc
    exact (h p.1).holds hc

end Session.Eval

/-- Working out its arguments makes no action a definition. -/
theorem Session.defines_of_evalAction {action : Action Expr (List Stmt)} {σ σ₁ : Session}
    {evaluated : Action Datum (List Stmt)} (h : evalAction action σ = .ok (evaluated, σ₁)) :
    evaluated.defines = action.defines := by
  have key : Eval.Yields (fun evaluated => evaluated.defines = action.defines)
      (evalAction action) := by
    unfold evalAction
    cases action <;> unfold Action.evaluate <;>
      repeat first
        | exact Eval.Yields.pure rfl
        | refine Eval.Yields.bind fun _ => ?_
  exact key.holds h

namespace Machine

/-- The next statement of the innermost body, or of the script if none is run. -/
def next? (m : Machine) : Option Stmt :=
  match m.session.calls with
  | [] => m.steps.head?
  | call :: _ => call.rest.head?

/-- Whether the next step begins a definition. -/
def defines (m : Machine) : Bool := m.settled.isNone && m.next?.any fun s => s.action.defines

/-- Whether no tree writes its custom properties, and the next step begins no statement that reads a
scope back. -/
def discreet (m : Machine) : Bool :=
  m.session.store.silent &&
    match m.task with
    | .begin σ tag action => σ.discreet tag action
    | _ => true

theorem next?_of_proceeds {m m₀ : Machine} {tag : Tag} {s : Stmt} (h : m.Proceeds m₀ tag s) :
    m.next? = some s := by
  unfold next?
  cases h with
  | script calls steps => simp only [calls, steps, List.head?_cons]
  | body calls statements => simp only [calls, statements, List.head?_cons]

theorem step_of_proceeds {m m₀ : Machine} {tag : Tag} {s : Stmt} (hs : m.settled = none)
    (h : m.Proceeds m₀ tag s) : m.step = m₀.beginStmt tag s.action := by
  cases h with
  | script calls steps => exact step_of_steps hs calls steps
  | body calls statements => exact step_of_rest hs calls statements

end Machine

/-! ### Machines of two runs -/

variable {μ ν : Matching}

/-- The same statement being completed with the same result but for numbers, or with a scope in
which the names are the same and which is not kept. -/
inductive Settled.Tallies (μ : Matching) :
    Option (Tag × Except Error Result) → Option (Tag × Except Error Result) → Prop
  | none : Tallies μ none none
  | same (tag : Tag) {r r' : Except Error Result} (result : Both (Result.Tallies μ) r r') :
    Tallies μ (some (tag, r)) (some (tag, r'))
  | scope {tag : Tag} (unsaved : tag.saved = none) {es es' : List (String × String)}
    (names : es.map Prod.fst = es'.map Prod.fst) :
    Tallies μ (some (tag, .ok (.scope es))) (some (tag, .ok (.scope es')))

theorem Settled.Tallies.mono (hle : μ.Le ν) {r r' : Option (Tag × Except Error Result)}
    (h : Settled.Tallies μ r r') : Settled.Tallies ν r r' := by
  cases h with
  | none => exact .none
  | same tag result => exact .same tag (result.imp fun _ _ => .mono hle)
  | scope unsaved names => exact .scope unsaved names

namespace Machine

/-- Differing in the values in scopes only, apart from numbers and from values that are still to be
defined. -/
structure Tallies (μ : Matching) (m m' : Machine) : Prop where
  session : m.session.Tallies μ m'.session
  steps : Body.Varies m.steps m'.steps
  index : m.index = m'.index
  settled : Settled.Tallies μ m.settled m'.settled

namespace Tallies

variable {m m' m₀ : Machine} {tag : Tag} {s : Stmt}

/-- Both runs fail with the same error, or neither fails. -/
theorem failure? (h : m.Tallies μ m') : m.failure? = m'.failure? := by
  unfold Machine.failure?
  have hs := h.settled
  revert hs
  generalize m.settled = r, m'.settled = r'
  intro hs
  cases hs with
  | none => rfl
  | same tag result =>
    cases result with
    | error e => rfl
    | ok hr => rfl
  | scope => rfl

/-- The next statements vary, and begin in states that differ in the values in scopes only. -/
theorem proceeds (h : m.Tallies μ m') (hp : m.Proceeds m₀ tag s) :
    ∃ m₀' s', m'.Proceeds m₀' tag s' ∧ m₀.Tallies μ m₀' ∧ s.Varies s' := by
  have hcalls := h.session.calls
  cases hp with
  | @script s rest calls steps =>
    have hc' := List.forall₂_nil_left_iff.1 (calls ▸ hcalls)
    obtain ⟨s', rest', hv, hrest, hs'⟩ := List.forall₂_cons_left_iff.1 (steps ▸ h.steps)
    refine ⟨{ m' with steps := rest', index := m'.index + 1 }, s', ?_, ?_, hv⟩
    · rw [h.index, hv.tagOf]
      exact .script hc' hs'
    · exact { h with steps := hrest, index := congrArg (· + 1) h.index }
  | @body call below s rest calls statements =>
    obtain ⟨call', below', hcall, hbelow, hc'⟩ := List.forall₂_cons_left_iff.1 (calls ▸ hcalls)
    obtain ⟨s', rest', hv, hrest, hr'⟩ :=
      List.forall₂_cons_left_iff.1 (statements ▸ hcall.rest)
    let call₀ : Call := { call' with rest := rest', index := call'.index + 1 }
    refine ⟨{ m' with session := { m'.session with calls := call₀ :: below' } }, s', ?_, ?_, hv⟩
    · rw [hcall.tag, hcall.index, hv.tagOf]
      exact .body hc' hr'
    · refine { h with session := { h.session with calls := .cons ?_ hbelow } }
      exact { hcall with rest := hrest, index := congrArg (· + 1) hcall.index }

/-! ### Statements that are no definitions -/

theorem perform (h : m.Tallies μ m') (hs : m.session.store.silent = true)
    {a a' : Action Datum (List Stmt)} (ha : Action.Rel (Datum.Tallies μ) Body.Varies a a')
    (hd : m.session.discreet tag a = true) (hno : a.defines = false) :
    ∃ ν, (m.perform tag a).Tallies ν (m'.perform tag a') := by
  have hb := h.session.begin hs ha hd hno
  have hheld := h.session.heldBy ha
  unfold Machine.perform
  revert hb
  generalize m.session.begin a = x, m'.session.begin a' = y
  intro hb
  cases hb with
  | done le session result =>
    exact ⟨_, { session, steps := h.steps, index := h.index, settled := .same tag result }⟩
  | enter le session purpose body =>
    have hcall : Call.Tallies _ ⟨_, tag, _, 0, m.session.heldBy a⟩
        ⟨_, tag, _, 0, m'.session.heldBy a'⟩ :=
      ⟨purpose, rfl, body, rfl, hheld.imp fun _ _ => .mono le⟩
    exact ⟨_, { h with
      session := { session with calls := .cons hcall session.calls }
      settled := h.settled.mono le }⟩

/-- A body that ends is done with, or followed by another one. -/
theorem finishCall (h : m.Tallies μ m') (hs : m.session.store.silent = true) {c c' : Call}
    (hc : c.Tallies μ c') : ∃ ν, (m.finishCall c).Tallies ν (m'.finishCall c') := by
  have tail {ν : Matching} {l l' : List Call} (h : List.Forall₂ (Call.Tallies ν) l l') :
      List.Forall₂ (Call.Tallies ν) l.tail l'.tail := by
    cases h with
    | nil => exact .nil
    | cons _ h => exact h
  have hb := h.session.finish hs hc.purpose
  unfold Machine.finishCall
  revert hb
  generalize m.session.finish c.purpose = x, m'.session.finish c'.purpose = y
  intro hb
  cases hb with
  | done le session result =>
    exact ⟨_, {
      session := { session with calls := tail session.calls }
      steps := h.steps
      index := h.index
      settled := hc.tag ▸ .same c.tag result }⟩
  | enter le session purpose body =>
    have hcall : Call.Tallies _ { c with purpose := _, rest := _, index := 0 }
        { c' with purpose := _, rest := _, index := 0 } :=
      { hc.mono le with purpose, rest := body, index := rfl }
    exact ⟨_, { h with
      session := { session with calls := .cons hcall (tail session.calls) }
      settled := h.settled.mono le }⟩

/-! ### Results -/

theorem keep {σ σ' : Session} (h : σ.Tallies μ σ') (tag : Tag) {r r' : Result}
    (hr : r.Tallies μ r') : (Machine.keep σ tag r).Tallies μ (Machine.keep σ' tag r') := by
  unfold Machine.keep
  refine { h with handles := ?_, saved := ?_ }
  · cases tag.handle with
    | none => exact h.handles
    | some name =>
      cases hr with
      | value hd =>
        cases hd with
        | node n => exact congrArg (Table.insert · name n) h.handles
        | _ => exact h.handles
      | _ => exact h.handles
  · cases tag.saved with
    | none => exact h.saved
    | some name => exact h.saved.insert name hr.datum

theorem afterError {p p' : Purpose} (hp : p.Tallies μ p') (e : Error) :
    Both (Result.Tallies μ) (Machine.afterError p e) (Machine.afterError p' e) := by
  cases hp with
  | attempt => exact .ok (.caught _)
  | _ => exact .error e

/-- What is told of a statement is recorded, and if it failed it fails the innermost call. -/
theorem settle (h : m.Tallies μ m') (tag : Tag) {r r' : Except Error Result}
    (hr : Both (Result.Tallies μ) r r') : (m.settle tag r).Tallies μ (m'.settle tag r') := by
  have hk : (keepResult m.session tag r).Tallies μ (keepResult m'.session tag r') := by
    cases hr with
    | error e => exact h.session
    | ok hr => exact keep h.session tag hr
  have ht : r.bind (·.told m.session.views) = r'.bind (·.told m'.session.views) := by
    cases hr with
    | error e => rfl
    | ok hr => exact h.session.told hr.datum
  cases hx : r.bind (·.told m.session.views) with
  | ok told =>
    rw [settle_of_told hx, settle_of_told (ht ▸ hx)]
    exact { h with
      session := { hk with trace := h.session.trace.push (.same _) }
      settled := .none }
  | error e =>
    rw [settle_of_raises hx, settle_of_raises (ht ▸ hx)]
    have hcalls := h.session.calls
    revert hcalls
    generalize m.session.calls = calls, m'.session.calls = calls'
    intro hcalls
    cases hcalls with
    | nil =>
      exact { h with
        session := { hk with calls := .nil, trace := h.session.trace.push (.same _) }
        settled := .none }
    | cons hc hbelow =>
      rename_i c c' below below'
      have failed : Settled.Tallies μ (some (c.tag, Machine.afterError c.purpose e))
          (some (c'.tag, Machine.afterError c'.purpose e)) :=
        hc.tag ▸ .same c.tag (afterError hc.purpose e)
      exact { h with
        session := { hk with calls := hbelow, trace := h.session.trace.push (.same _) }
        settled := failed }

/-- The scope that a definition tells is recorded, and nothing else. -/
theorem settle_scope (h : m.Tallies μ m') (unsaved : tag.saved = none)
    {es es' : List (String × String)} (names : es.map Prod.fst = es'.map Prod.fst) :
    (m.settle tag (.ok (.scope es))).Tallies μ (m'.settle tag (.ok (.scope es'))) := by
  have unkept (σ : Session) (es : List (String × String)) :
      keepResult σ tag (.ok (.scope es)) = σ := by
    unfold keepResult Machine.keep
    simp only [unsaved]
    cases tag.handle <;> rfl
  rw [settle_of_told rfl, settle_of_told rfl, unkept, unkept]
  exact { h with
    session := { h.session with trace := h.session.trace.push (.scope _ names) }
    settled := .none }

end Tallies

/-! ### Definitions -/

/-- What may become of a definition: it fails, or it defines the name on the rule set that it acts
on. -/
inductive Defined (m : Machine) (tag : Tag) (t : Target) (name : String) (m' : Machine) : Prop
  | failed (σ : Session) (e : Error) (beside : m.session.Beside σ)
    (stamps : m.session.stamps ≤ σ.stamps)
    (result : m' = { m with session := σ, settled := some (tag, .error e) })
  | defined (σ : Session) (n : NodeId) (text : String) (store : Store)
    (beside : m.session.Beside σ) (stamps : m.session.stamps ≤ σ.stamps)
    (target : σ.target t = .node n)
    (defines : store = { σ.store with forest := σ.store.forest.define n name text })
    (result : m' = { m with
      session := { σ with store }
      settled := some (tag, .ok (.scope (store.get n).scope.entries)) })

theorem defined_of_beginStmt (m : Machine) (tag : Tag) (t : Target) (name : String) (value : Expr) :
    m.Defined tag t name (m.beginStmt tag (.define t name value)) := by
  have keeps := Session.keeps_evalAction (.define t name value)
  rw [beginStmt_eq]
  cases he : Session.evalAction (.define t name value) m.session with
  | error e => exact .failed m.session e (.refl _) (Nat.le_refl _) rfl
  | ok p =>
    obtain ⟨action, σ⟩ := p
    have hb := keeps.beside he
    have hs := keeps.stamps_le he
    have shape : Session.Eval.Yields (fun action => ∃ d, action = .define t name d)
        (Session.evalAction (.define t name value)) := .bind fun d => .pure ⟨d, rfl⟩
    obtain ⟨d, rfl⟩ := shape.holds he
    simp only
    generalize hst : σ.begin (.define t name d) = st
    have hbegin : σ.onNode t (fun n => σ.changeStore (σ.store.define σ.appearance n name d)
      fun s => .scope (s.get n).scope.entries) = st := hst
    unfold Session.onNode at hbegin
    split at hbegin
    · rename_i n ht
      unfold Session.changeStore Store.define at hbegin
      cases hp : propertyValue σ.appearance d with
      | error e =>
        rw [hp] at hbegin
        subst hbegin
        rw [perform_done hst]
        exact .failed σ e hb hs rfl
      | ok text =>
        rw [hp] at hbegin
        subst hbegin
        rw [perform_done hst]
        exact .defined σ n text _ hb hs ht rfl rfl
    · subst hbegin
      rw [perform_done hst]
      exact .failed σ .noTarget hb hs rfl

namespace Tallies

variable {m m' : Machine} {tag : Tag} {s : Stmt}

/-- Two definitions of the same name on the same rule set leave states that differ in the values in
scopes only, if both fail with the same error or neither fails. -/
theorem of_defined (h : m.Tallies μ m') {t : Target} {name : String} {m₁ m₁' : Machine}
    (hm : m.Defined tag t name m₁) (hm' : m'.Defined tag t name m₁')
    (unsaved : m₁.failure? = none → tag.saved = none) (hf : m₁.failure? = m₁'.failure?) :
    m₁.Tallies μ m₁' := by
  cases hm with
  | failed σ e hb hs result =>
    cases hm' with
    | failed σ' e' hb' hs' result' =>
      subst result result'
      cases hf
      exact { h with session := h.session.beside hb hs hb' hs', settled := .same tag (.error e) }
    | defined =>
      subst_vars
      cases hf
  | defined σ n text store hb hs ht hstore result =>
    cases hm' with
    | failed =>
      subst_vars
      cases hf
    | defined σ' n' text' store' hb' hs' ht' hstore' result' =>
      have hσ := h.session.beside hb hs hb' hs'
      have hn : σ.target t = σ'.target t := by
        have := hσ.target t
        rw [ht, ht'] at this ⊢
        cases this
        rfl
      -- both act on the same rule set
      cases (ht.symm.trans hn).trans ht'
      subst hstore hstore' result result'
      have hd := hσ.store.define n name text text'
      exact { h with
        session := { hσ with store := hd }
        settled := .scope (unsaved rfl) (hd.get n).names }

/-! ### Steps and runs -/

theorem settled_none (h : m.Tallies μ m') (hs : m.settled = none) : m'.settled = none := by
  have hr := h.settled
  rw [hs] at hr
  generalize m'.settled = r' at hr
  cases hr
  rfl

/-- A statement that begins is no definition, or a definition that nothing keeps, or fails. -/
theorem unsaved_of_discreet {m₀ : Machine} (hs : m.settled = none) (hp : m.Proceeds m₀ tag s)
    (hd : m.discreet = true) (hdef : s.action.defines = true)
    (hf : (m₀.beginStmt tag s.action).failure? = none) : tag.saved = none := by
  have htask := ((Bool.and_eq_true ..).mp hd).2
  rw [task_of_proceeds hs hp] at htask
  rw [beginStmt_eq] at hf
  unfold taskOf at htask
  cases he : Session.evalAction s.action m₀.session with
  | error e =>
    rw [he] at hf
    cases hf
  | ok p =>
    obtain ⟨action, σ⟩ := p
    have hk := (Session.defines_of_evalAction he).trans hdef
    rw [he] at htask
    cases action with
    | define t name d => exact Option.isNone_iff_eq_none.1 htask
    | _ => cases hk

/-- The next statement begins alike. -/
theorem begin {m₀ : Machine} (h : m.Tallies μ m') (hs : m.settled = none)
    (hp : m.Proceeds m₀ tag s) (hd : m.discreet = true)
    (hf : m.defines = true → m.step.failure? = m'.step.failure?) :
    ∃ ν, m.step.Tallies ν m'.step := by
  obtain ⟨hsilent, htask⟩ := (Bool.and_eq_true ..).mp hd
  obtain ⟨m₀', s', hp', h₀, hv⟩ := h.proceeds hp
  have hdefines : s.action.defines = true → m.defines = true := fun hk => by
    unfold Machine.defines
    rw [hs, next?_of_proceeds hp]
    exact hk
  have unsaved := unsaved_of_discreet hs hp hd
  rw [step_of_proceeds hs hp, step_of_proceeds (h.settled_none hs) hp'] at hf ⊢
  rcases hv.action with hdef | ⟨ha, hno⟩
  -- a definition: whatever becomes of it in either run, both fail alike or define the same name
  · generalize s.action = a, s'.action = a' at hdef hdefines hf unsaved
    cases hdef with
    | mk t name value value' =>
      exact ⟨μ, h₀.of_defined (defined_of_beginStmt ..) (defined_of_beginStmt ..) (unsaved rfl)
        (hf (hdefines rfl))⟩
  -- any other statement: its arguments are the same but for numbers
  · rw [task_of_proceeds hs hp] at htask
    unfold taskOf at htask
    rw [beginStmt_eq, beginStmt_eq]
    have he := (Session.tallies_evalAction h₀.session ha).both
    have hk := @Session.defines_of_evalAction s.action m₀.session
    have hb := @(Session.keeps_evalAction s.action).beside m₀.session
    revert he htask hk hb
    generalize Session.evalAction s.action m₀.session = x,
      Session.evalAction s'.action m₀'.session = y
    intro htask he hk hb
    cases he with
    | error e => exact ⟨μ, { h₀ with settled := .same tag (.error e) }⟩
    | ok hr =>
      obtain ⟨ν, hle, hσ, hrel⟩ := hr
      have h₁ : Machine.Tallies ν { m₀ with session := _ } { m₀' with session := _ } :=
        { h₀ with session := hσ, settled := h₀.settled.mono hle }
      refine h₁.perform ?_ hrel htask ((hk rfl).trans hno)
      rw [← hp.store, ← (hb rfl).store] at hsilent
      exact hsilent

/-- A step in which no scope is read back leads to states that differ in the values in scopes only,
if a definition that begins in it fails with the same error in both runs or in neither. -/
theorem step (h : m.Tallies μ m') (hd : m.discreet = true)
    (hf : m.defines = true → m.step.failure? = m'.step.failure?) :
    ∃ ν, m.step.Tallies ν m'.step := by
  have hsilent := ((Bool.and_eq_true ..).mp hd).1
  cases m.turn with
  | settle settled step =>
    have hr := h.settled
    rw [settled] at hr
    generalize hs' : m'.settled = r' at hr
    cases hr with
    | same tag result =>
      rw [step, step_of_settled hs']
      exact ⟨μ, h.settle _ result⟩
    | scope unsaved names =>
      rw [step, step_of_settled hs']
      exact ⟨μ, h.settle_scope unsaved names⟩
  | begin settled proceeds => exact h.begin settled proceeds hd hf
  | finish settled calls rest step =>
    obtain ⟨call', below', hcall, -, hc'⟩ :=
      List.forall₂_cons_left_iff.1 (calls ▸ h.session.calls)
    have hr' := List.forall₂_nil_left_iff.1 (rest ▸ hcall.rest)
    rw [step, step_of_ended (h.settled_none settled) hc' hr']
    exact h.finishCall hsilent hcall
  | idle settled calls steps step =>
    have hc' := List.forall₂_nil_left_iff.1 (calls ▸ h.session.calls)
    have hs' := List.forall₂_nil_left_iff.1 (steps ▸ h.steps)
    rw [step, step_of_idle (h.settled_none settled) hc' hs']
    exact ⟨μ, h⟩

/-- Any number of steps in which no scope is read back lead to states that differ in the values in
scopes only. -/
theorem run (h : m.Tallies μ m') (hd : ∀ k, (Machine.run k m).discreet = true)
    (hf : ∀ k, (Machine.run k m).defines = true →
      (Machine.run (k + 1) m).failure? = (Machine.run (k + 1) m').failure?) (k : Nat) :
    ∃ ν, (Machine.run k m).Tallies ν (Machine.run k m') := by
  induction k with
  | zero => exact ⟨μ, h⟩
  | succ k ih =>
    obtain ⟨ν, ih⟩ := ih
    have hk := hf k
    rw [run_step, run_step] at hk ⊢
    exact ih.step (hd k) hk

/-- Scripts that differ in the values of definitions start alike. -/
theorem load {s s' : Script} (h : s.Varies s') :
    ∃ μ, (Machine.load s).Tallies μ (Machine.load s') := by
  -- nothing has a number yet but the naming rule and the sample kind
  let μ : Matching := ⟨fun s t => s = t ∧ s < 2, fun _ _ => False⟩
  have hc : μ.Counts 2 2 #[] #[] := by
    refine ⟨⟨?_, nofun⟩, ?_, nofun, ⟨rfl, by decide⟩, ⟨rfl, by decide⟩⟩
    · rintro s t s' t' ⟨rfl, _⟩ ⟨rfl, _⟩
      rfl
    · rintro s t ⟨rfl, hs⟩
      exact ⟨hs, hs⟩
  have hlog : (Session.start s.generators s.logs).log.isSome =
      (Session.start s'.generators s'.logs).log.isSome := by rw [h.logs]; rfl
  exact ⟨μ, {
    session :=
      { counts := hc
        store := .empty
        generators := ⟨h.generators⟩
        hosts := ⟨.nil⟩
        hostNames := rfl
        registries := ⟨.cons .nil .nil⟩
        registryNames := rfl
        iterations := .empty
        handles := rfl
        saved := .empty
        calls := .nil
        trace := ⟨.nil⟩
        log := hlog }
    steps := h.steps
    index := rfl
    settled := .none }⟩

end Tallies

/-! ### Scripts -/

/-- Showing the same in two runs, but for the scopes that definitions tell: what was told and what
failed, what is written of every rule set, and what is visible to it. -/
structure ShowsAlike (m m' : Machine) : Prop where
  finished : m.finished = m'.finished
  trace : Rows TraceEntry.Tallies m.session.trace m'.session.trace
  failure : m.failure? = m'.failure?
  handles : m.session.handles = m'.session.handles
  css (n : NodeId) : m.session.css n = m'.session.css n
  blocks (n : NodeId) : m.session.appearance.blocks n = m'.session.appearance.blocks n
  next (c : Cursor) : c.next m.session.store m.session.appearance =
    c.next m'.session.store m'.session.appearance
  sees (n : NodeId) (name : String) : m.session.sees n name = m'.session.sees n name
  reference (n : NodeId) (name : String) : m.session.reference n name = m'.session.reference n name

theorem Tallies.finished {m m' : Machine} (h : m.Tallies μ m') : m.finished = m'.finished := by
  have hr : m.settled.isNone = m'.settled.isNone := by
    have hs := h.settled
    revert hs
    generalize m.settled = r, m'.settled = r'
    intro hs
    cases hs <;> rfl
  unfold Machine.finished
  rw [hr, isEmpty_of_forall₂ h.session.calls, isEmpty_of_forall₂ h.steps]

theorem Tallies.showsAlike {m m' : Machine} (h : m.Tallies μ m')
    (hs : m.session.store.silent = true) : m.ShowsAlike m' where
  finished := h.finished
  trace := h.session.trace
  failure := h.failure?
  handles := h.session.handles
  css := h.session.css hs
  blocks := congrFun (h.session.appearance hs).blocks
  next := h.session.store.nextBlock hs _ _
  sees := h.session.sees
  reference := h.session.reference

/-- As long as no tree writes its custom properties and no scope is read back, scripts that differ
in the values of definitions show the same at all times, if the same definitions fail, and with the
same errors. -/
theorem scope_values_unread {s s' : Script} (h : s.Varies s')
    (hd : ∀ k, (run k (load s)).discreet = true)
    (hf : ∀ k, (run k (load s)).defines = true →
      (run (k + 1) (load s)).failure? = (run (k + 1) (load s')).failure?) (k : Nat) :
    (run k (load s)).ShowsAlike (run k (load s')) := by
  obtain ⟨μ, h₀⟩ := Tallies.load h
  obtain ⟨ν, hk⟩ := h₀.run hd hf k
  exact hk.showsAlike ((Bool.and_eq_true ..).mp (hd k)).1

/-- What holds of all states up to a finished one holds of all. -/
theorem forall_run {P : Machine → Prop} {m : Machine} (n : Nat) (hn : (run n m).finished = true)
    (h : ∀ k ≤ n, P (run k m)) (k : Nat) : P (run k m) := by
  by_cases hk : k ≤ n
  · exact h k hk
  · obtain ⟨j, rfl⟩ := Nat.exists_eq_add_of_le (Nat.le_of_not_le hk)
    rw [run_add, run_of_finished hn]
    exact h n (Nat.le_refl n)

end Machine

/-- A rule set keeps its selector, a number too long to be written out. Then it defines a property,
which may fail, and looks whether it is visible. Its parent fails in the end. -/
def Script.widening (value : Expr) : Script where
  steps := [.mk (.build (.int (Int.ofNat (Nat.pow 10 4300 - 1))) (.inline [
    .mk (.select (.enclosing 0) "select" (some (.int 1)) (some (.inline [
      .mk (.attempt [.mk (.read (.enclosing 0) .selector) none (some "wide")]) none none,
      .mk (.attempt [.mk (.define (.enclosing 0) "colour" value) none none]) none none,
      .mk (.check (.enclosing 0) "colour") none none]))) none none,
    .mk (.raise "end") none none]) none []) none none]
  generators := .empty
  logs := false

theorem Script.varies_widening (value value' : Expr) :
    (widening value).Varies (widening value') where
  steps := by
    refine .cons (.mk none none (.build (.same _) (.inline (.cons (.mk none none (.select _ _
      (.some (.same _)) (.some (.inline ?_)))) (.cons (.same _) .nil))) .none .nil)) .nil
    exact .cons (.same _) (.cons (.mk none none (.attempt (.cons (.define ..) .nil)))
      (.cons (.same _) .nil))
  generators := .nil
  logs := rfl

theorem Machine.discreet_widening (k : Nat) :
    (run k (load (.widening (.text "red")))).discreet = true :=
  forall_run (P := fun m => m.discreet = true) 18 (by decide +kernel) (by decide +kernel) k

/-- Defined as either of two texts, the property never shows its value. -/
theorem Machine.scope_values_unread_widening :
    (∀ k, (run k (load (.widening (.text "red")))).discreet = true) ∧
      ∀ k, (run k (load (.widening (.text "red")))).ShowsAlike
        (run k (load (.widening (.text "blue")))) := by
  refine ⟨discreet_widening, scope_values_unread (Script.varies_widening ..) discreet_widening
    fun k hk => ?_⟩
  have hle : k ≤ 18 := by
    by_contra hlt
    obtain ⟨j, rfl⟩ := Nat.exists_eq_add_of_le (Nat.le_of_not_le hlt)
    rw [run_add, run_of_finished (by decide +kernel)] at hk
    exact absurd hk (by decide +kernel)
  have same : ∀ k ≤ 18, (run k (load (.widening (.text "red")))).defines = true →
      (run (k + 1) (load (.widening (.text "red")))).failure? =
        (run (k + 1) (load (.widening (.text "blue")))).failure? := by decide +kernel
  exact same k hle hk

/-- Defined as a number that cannot be written out it does show, since then the definition fails. -/
theorem Machine.failing_value_shows_widening :
    (Script.widening (.text "red")).Varies (.widening (.saved "wide")) ∧
      (∀ k, (run k (load (.widening (.text "red")))).discreet = true) ∧
      (∀ k, (run k (load (.widening (.saved "wide")))).discreet = true) ∧
      ¬ (run 8 (load (.widening (.text "red")))).ShowsAlike
        (run 8 (load (.widening (.saved "wide")))) := by
  refine ⟨Script.varies_widening .., discreet_widening,
    forall_run (P := fun m => m.discreet = true) 18 (by decide +kernel) (by decide +kernel),
    fun h => absurd h.failure (by decide +kernel)⟩

end RuleTree
