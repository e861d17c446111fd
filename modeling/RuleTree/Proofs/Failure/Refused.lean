import RuleTree.Proofs.Failure.Spared
import RuleTree.Proofs.Sheets.Sound

/-!
# Statements that are refused

* `Action.fills`, `Action.generators`, `Session.resettable`: statements that run generators, the
  values that they may call as such, and the rule sets that they may empty;
* `Session.NamesFor`, `Session.refuses_begin`: such a statement leaves everything as it was if it
  fails as it begins, or as a naming option has left it, unless calling the generator failed;
* `Action.alters`, `Session.eq_of_alters`: statements on single rule sets that fail do nothing;
* `Session.Reason`, `Session.spares_of_reason`: what is wrong with statements that run generators, in
  the order in which it is found out;
* `Machine.RefusesCleanly`, `Machine.refusesCleanly`: so it is in every state of a script;
* `Machine.erasing_uncalled`: but a generator may fail before it does anything, and a naming option may
  do something.
-/

namespace RuleTree

/-- Whether a statement runs a generator on a rule set. -/
def Action.fills {α β : Type} : Action α β → Bool
  | .select _ _ _ _ | .reset _ _ | .build _ _ _ _ | .construct _ _ _ _ _ | .create _ _ _ => true
  | .obtain _ _ _ _ | .render _ _ _ _ => true
  | _ => false

/-- The values that a statement may call as a generator. -/
def Action.generators {α β : Type} : Action α β → List α
  | .select _ _ _ generator => generator.toList
  | .reset _ generator => [generator]
  | .build _ generator _ _ => [generator]
  | .construct _ generator _ _ _ => [generator]
  | .create arguments _ _ => arguments
  | .obtain _ _ generator _ => [generator]
  | .render _ _ generator _ => [generator]
  | _ => []

/-- Whether a statement writes, assigns or defines on a rule set, or asks what is defined there. -/
def Action.alters {α β : Type} : Action α β → Bool
  | .write _ _ | .assign _ _ _ | .define _ _ _ | .setScope _ _ _ | .check _ _ | .var _ _ => true
  | _ => false

namespace Session

variable {σ : Session} {action : Action Datum (List Stmt)} {e : Error}

/-- The rule sets that a statement may fill again: the one that it resets, or those filed in its
registry. -/
def resettable (σ : Session) : Action Datum (List Stmt) → List NodeId
  | .reset t _ =>
    match σ.target t with
    | .node n => [n]
    | _ => []
  | .create _ _ _ => σ.filedSheets firstRegistry
  | .obtain name _ _ _ => σ.filedSheets (σ.withRegistry name).2
  | .render name _ _ _ => σ.filedSheets (σ.withRegistry name).2
  | _ => []

/-- A statement selects by kind, and calling the naming option for it leads to another session. -/
def NamesFor (σ : Session) (action : Action Datum (List Stmt)) (σ₁ : Session) : Prop :=
  ∃ t method argument generator n, action = .select t method argument generator ∧
    σ.target t = .node n ∧ Method.named method = .ok .kind ∧ σ.Names n (argument.getD .null) σ₁

/-! ### Statements that fail as they begin -/

theorem refuses_onNode {t : Target} {act : NodeId → Start} {ns : List NodeId} {gs : List Datum}
    (h : ∀ n, σ.target t = .node n → (act n).Refuses σ ns gs) :
    (σ.onNode t act).Refuses σ ns gs := by
  unfold onNode
  split
  · rename_i n hn
    exact h n hn
  · exact .refuse (.refl σ) _

/-- A registry that is named may have to be made first. -/
theorem refuses_sheet (hg : σ.Grounded) (held : σ.store.Held) (name : String)
    (host generator : Datum) (options : Table Datum) (output : Output) :
    (σ.onRegistry name fun σ id => σ.obtain id host generator options output).Refuses σ
      (σ.filedSheets (σ.withRegistry name).2) [generator] := by
  have hs := σ.store_withRegistry name
  have key := refuses_obtain (hg.withRegistry name) (hs ▸ held) (σ.withRegistry name).2 host
    generator options output
  unfold filedSheets at key ⊢
  rw [filedEntries_withRegistry] at key
  exact .after (.withRegistry σ name) hs key

/-- A statement that runs generators and fails as it begins leaves everything as it was, or as the
naming option has left it, unless calling its generator has failed. -/
theorem refuses_begin (hg : σ.Grounded) (held : σ.store.Held) (hf : action.fills = true) :
    ∃ σ₁, (σ₁ = σ ∨ σ.NamesFor action σ₁) ∧
      (σ.begin action).Refuses σ₁ (σ.resettable action) action.generators := by
  cases action with
  | select t method argument generator =>
    show ∃ σ₁, _ ∧ (σ.onNode t fun n => σ.callMethod n method argument generator).Refuses σ₁ _ _
    unfold onNode
    cases ht : σ.target t with
    | node n =>
      obtain ⟨σ₁, h₁, h₂⟩ := refuses_callMethod σ n method argument generator
      exact ⟨σ₁, h₁.imp_right fun h => ⟨t, method, argument, generator, n, rfl, ht, h⟩, h₂⟩
    | _ => exact ⟨σ, .inl rfl, .refuse (.refl σ) _⟩
  | reset t generator =>
    refine ⟨σ, .inl rfl, refuses_onNode fun n hn => ?_⟩
    have hr : σ.resettable (.reset t generator) = [n] := by simp only [resettable, hn]
    rw [hr]
    exact refuses_reset hg (hg.announced_target hn) none .node generator
  | build selector generator host options => exact ⟨σ, .inl rfl, refuses_build held ..⟩
  | construct selector generator host options parent =>
    exact ⟨σ, .inl rfl, refuses_construct held ..⟩
  | create arguments host options => exact ⟨σ, .inl rfl, refuses_create hg held ..⟩
  | obtain name host generator options => exact ⟨σ, .inl rfl, refuses_sheet hg held ..⟩
  | render name host generator options => exact ⟨σ, .inl rfl, refuses_sheet hg held ..⟩
  | _ => cases hf

/-- A statement that writes, assigns, defines or asks for a definition does nothing if it fails. -/
theorem eq_of_alters {σ' : Session} (ha : action.alters = true)
    (h : σ.begin action = .done σ' (.error e)) : σ' = σ := by
  have still {t : Target} {act : NodeId → Start} {σ' : Session}
      (hact : ∀ n, act n = .done σ' (.error e) → σ' = σ)
      (h : σ.onNode t act = .done σ' (.error e)) : σ' = σ := by
    unfold onNode at h
    split at h
    · exact hact _ h
    · cases h
      rfl
  have change {store : Except Error Store} {result : Store → Result} {σ' : Session}
      (h : σ.changeStore store result = .done σ' (.error e)) : σ' = σ := by
    unfold changeStore at h
    split at h <;> cases h
    rfl
  cases action with
  | write t text => exact still (fun _ => change) h
  | assign t properties keywords => exact still (fun _ => change) h
  | define t name value => exact still (fun _ => change) h
  | setScope t name value => exact still (fun n h => by cases h; rfl) h
  | check t name => exact still (fun n h => by cases h) h
  | var t name =>
    refine still (fun n h => ?_) h
    exact (Start.done.inj h).1.symm
  | _ => cases ha

theorem exists_error_of_mapM {α β : Type} {f : α → Except Error β} {items : List α} {item : α}
    (hm : item ∈ items) (hf : f item = .error e) : ∃ e', items.mapM f = .error e' := by
  induction items with
  | nil => cases hm
  | cons first rest ih =>
    rw [List.mapM_cons]
    cases h₁ : f first with
    | error e' => exact ⟨e', rfl⟩
    | ok b =>
      rcases List.mem_cons.1 hm with rfl | hm
      · cases hf.symm.trans h₁
      · obtain ⟨e', he'⟩ := ih hm
        exact ⟨e', by rw [he']; rfl⟩

/-- No declaration is written if one of them cannot be shown. -/
theorem exists_error_of_assign {t : Target} {properties : Option Datum}
    {keywords : List (String × Datum)} {items : List (Datum × Datum)} {item : Datum × Datum}
    (hitems : declarationItems (properties.getD .null) (.ofList keywords) = .ok items)
    (hmem : item ∈ items) (hline : itemLine σ.appearance item = .error e) :
    ∃ e', σ.begin (.assign t properties keywords) = .refuse σ e' := by
  have hlines : ∃ e', declarations σ.appearance (properties.getD .null) (.ofList keywords) =
      .error e' := by
    obtain ⟨e', he'⟩ := exists_error_of_mapM hmem hline
    refine ⟨e', ?_⟩
    unfold declarations
    rw [hitems]
    simp only [bind, Except.bind, he']
  obtain ⟨e', he'⟩ := hlines
  show ∃ e', σ.onNode t _ = .refuse σ e'
  unfold onNode
  cases σ.target t with
  | node n =>
    show ∃ e', σ.changeStore (σ.store.assign σ.appearance n _ _) _ = .refuse σ e'
    unfold Store.assign declarationsOf
    cases (Table.ofList keywords).find? propertiesParameter with
    | some d => exact ⟨_, rfl⟩
    | none => exact ⟨e', by simp only [he', bind, Except.bind]; rfl⟩
  | _ => exact ⟨.noTarget, rfl⟩

/-! ### Reasons -/

/-- What is wrong with a statement that runs generators. Every reason but the first of a statement
says that the ones before it do not apply. -/
inductive Reason (σ : Session) : Action Datum (List Stmt) → Error → Prop
  /-- the fragment of a selection does not go together with the selector -/
  | fragment {t : Target} {name : String} {m : Method} {argument generator a : Option Datum}
    {n : NodeId} {fragment g : Datum} {e : Error} (target : σ.target t = .node n)
    (method : Method.named name = .ok m) (plain : m ≠ .kind)
    (bound : m.bind argument generator = .ok (a, some g)) (given : g.isNull = false)
    (made : m.fragmentOf σ.appearance (a.getD .null) = .ok fragment)
    (apart : (σ.store.get n).selector.plus σ.stamps fragment = .error e) :
    Reason σ (.select t name argument generator) e
  /-- the generator of a selection cannot be called -/
  | selection {t : Target} {name : String} {m : Method} {argument generator a : Option Datum}
    {n : NodeId} {fragment g selector : Datum} (target : σ.target t = .node n)
    (method : Method.named name = .ok m) (plain : m ≠ .kind)
    (bound : m.bind argument generator = .ok (a, some g)) (given : g.isNull = false)
    (made : m.fragmentOf σ.appearance (a.getD .null) = .ok fragment)
    (together : (σ.store.get n).selector.plus σ.stamps fragment = .ok selector)
    (uncallable : σ.callable g = false) :
    Reason σ (.select t name argument generator) .missingGenerator
  /-- the generator of a reset cannot be called, whether the tree is cleared on reset or not -/
  | reset {t : Target} {n : NodeId} {g : Datum} (target : σ.target t = .node n)
    (uncallable : σ.callable g = false) : Reason σ (.reset t g) .missingGenerator
  /-- the generator of a rule set cannot be called, whatever the options -/
  | construction {selector g : Datum} {host : Option Datum} {options : List (String × Datum)}
    {parent : Option String} (uncallable : σ.callable g = false) :
    Reason σ (.construct selector g host options parent) .missingGenerator
  /-- a root has options with unknown names -/
  | options {selector g : Datum} {host : Option Datum} {options : List (String × Datum)}
    {parent : Option String} {name : String} (root : parent.bind σ.handles.find? = none)
    (callable : σ.callable g = true) (given : name ∈ (Table.ofList options).keys)
    (unknown : name ∉ OptionSet.knownNames) :
    Reason σ (.construct selector g host options parent)
      (.unknownOptions (sortNames ((Table.ofList options).keys.filter fun name =>
        !OptionSet.knownNames.contains name)))
  /-- the generator of a tree cannot be called, whatever the options -/
  | build {selector g : Datum} {host : Option Datum} {options : List (String × Datum)}
    (bound : hasAny (.ofList options) ["selector", "generate"] = false)
    (once : (host.isSome && (Table.ofList options).contains hostOption) = false)
    (uncallable : σ.callable g = false) :
    Reason σ (.build selector g host options) .missingGenerator
  /-- a tree has options with unknown names -/
  | buildOptions {selector g : Datum} {host : Option Datum} {options : List (String × Datum)}
    {name : String} (bound : hasAny (.ofList options) ["selector", "generate"] = false)
    (once : (host.isSome && (Table.ofList options).contains hostOption) = false)
    (callable : σ.callable g = true)
    (given : name ∈ ((Table.ofList options).erase hostOption).keys)
    (unknown : name ∉ OptionSet.knownNames) :
    Reason σ (.build selector g host options)
      (.unknownOptions (sortNames (((Table.ofList options).erase hostOption).keys.filter
        fun name => !OptionSet.knownNames.contains name)))
  /-- the generator of a style sheet cannot be called, whatever the host -/
  | sheet {action : Action Datum (List Stmt)} {registry : String} {host g : Datum}
    {options : List (String × Datum)}
    (asked : action = .obtain registry host g options ∨ action = .render registry host g options)
    (bound : hasAny (.ofList options) [hostOption, "generate", "self"] = false)
    (uncallable : σ.callable g = false) : Reason σ action .missingGenerator
  /-- a value cannot be registered as a host, though the generator could run -/
  | host {action : Action Datum (List Stmt)} {registry : String} {host g : Datum}
    {options : List (String × Datum)} {e : Error}
    (asked : action = .obtain registry host g options ∨ action = .render registry host g options)
    (bound : hasAny (.ofList options) [hostOption, "generate", "self"] = false)
    (callable : σ.callable g = true) (unregistrable : σ.asHost host = .error e) :
    Reason σ action e
  /-- a host is given by itself and once more before the generator -/
  | twice {first second host : Datum} {options : List (String × Datum)}
    (given : host.isNull = false) (once : (Table.ofList options).contains hostOption = false)
    (again : second.isNull = false) :
    Reason σ (.create [first, second] (some host) options) .hostTwice

theorem Spares.asHost_eq {σ₁ : Session} (h : σ.Spares σ₁) (d : Datum) :
    σ₁.asHost d = σ.asHost d := by
  unfold asHost hasHash
  rw [h.hosts.1]

theorem merge_of_unknown {options : Table Datum} {name : String} (given : name ∈ options.keys)
    (unknown : name ∉ OptionSet.knownNames) : OptionSet.merge (optionsDatum options) =
      .error (.unknownOptions (sortNames (options.keys.filter fun name =>
        !OptionSet.knownNames.contains name))) := by
  rw [OptionSet.merge_optionsDatum, if_neg fun h => unknown (h name given)]

/-- With any of these reasons nothing is done. -/
theorem refuse_of_reason (h : σ.Reason action e) :
    ∃ σ₁, σ.begin action = .refuse σ₁ e ∧ σ.Spares σ₁ ∧ σ₁.store = σ.store := by
  have still {st : Start} (h : st = .refuse σ e) :
      ∃ σ₁, st = .refuse σ₁ e ∧ σ.Spares σ₁ ∧ σ₁.store = σ.store := ⟨σ, h, .refl σ, rfl⟩
  have named (registry : String) {host g : Datum} {options : Table Datum} {output : Output}
      (h : ∀ σ₁ : Session, σ.Spares σ₁ → ∀ id,
        σ₁.obtain id host g options output = .refuse σ₁ e) :
      ∃ σ₁, (σ.onRegistry registry fun σ id => σ.obtain id host g options output) =
        .refuse σ₁ e ∧ σ.Spares σ₁ ∧ σ₁.store = σ.store :=
    ⟨_, h _ (.withRegistry σ registry) _, .withRegistry σ registry, σ.store_withRegistry registry⟩
  cases h with
  | fragment target method plain bound given made apart =>
    refine still ?_
    show σ.onNode _ _ = _
    unfold onNode callMethod selectBy select selectFrom
    simp only [target, method, bound, if_neg plain, made, given, apart]
    rfl
  | selection target method plain bound given made together uncallable =>
    refine still ?_
    show σ.onNode _ _ = _
    unfold onNode callMethod selectBy select selectFrom
    simp only [target, method, bound, if_neg plain, made, given, together, uncallable]
    rfl
  | reset target uncallable =>
    refine still ?_
    show σ.onNode _ _ = _
    unfold onNode reset
    simp only [target, uncallable]
    rfl
  | construction uncallable =>
    refine still ?_
    show σ.construct _ _ _ _ _ = _
    unfold construct buildRoot
    rw [uncallable]
    split <;> rfl
  | options root callable given unknown =>
    refine still ?_
    show σ.construct _ _ _ _ _ = _
    unfold construct buildRoot
    simp only [root, callable, merge_of_unknown given unknown]
    rfl
  | build bound once uncallable =>
    refine still ?_
    show σ.build _ _ _ _ _ = _
    unfold Session.build buildRoot
    simp only [bound, once, uncallable]
    rfl
  | buildOptions bound once callable given unknown =>
    refine still ?_
    show σ.build _ _ _ _ _ = _
    unfold Session.build buildRoot
    simp only [bound, once, callable, merge_of_unknown given unknown]
    rfl
  | sheet asked bound uncallable =>
    rcases asked with rfl | rfl <;>
      refine named _ fun σ₁ h id => ?_ <;> unfold obtain <;>
      simp only [bound, h.callable_eq, uncallable] <;> rfl
  | host asked bound callable unregistrable =>
    rcases asked with rfl | rfl <;>
      refine named _ fun σ₁ h id => ?_ <;> unfold obtain <;>
      simp only [bound, h.callable_eq, callable, h.asHost_eq, unregistrable] <;> rfl
  | @twice first second host options given once again =>
    refine still ?_
    show σ.create [first, second] host (.ofList options) = _
    unfold create
    simp [createWith, given, once, again]

end Session

/-! ### Steps in which statements fail -/

namespace Machine

variable {m : Machine}

/-- The calls in progress are as they were before the step: no body was entered, and none has ended.
-/
def Stays (m : Machine) : Prop :=
  m.step.session.calls.map Call.purpose = m.session.calls.map Call.purpose

/-- What becomes of statements that fail in the next step. -/
structure RefusesCleanly (m : Machine) : Prop where
  /-- a statement whose arguments cannot be worked out does nothing -/
  evaluated : ∀ σ tag e, m.task = .refuse σ tag e →
    m.step.settled = some (tag, .error e) ∧ m.Stays ∧ m.session.Spares m.step.session
  /-- a statement that runs generators and fails as it begins has run no statement, and has left
  everything as it was or as the naming option has left it; but a reset that found its generator to be
  callable may have emptied its rule set before calling it failed -/
  begun : ∀ σ tag tag' action e, m.task = .begin σ tag action → action.fills = true →
    m.step.settled = some (tag', .error e) →
    tag' = tag ∧ m.Stays ∧ m.session.Spares σ ∧ ∃ σ₁, (σ₁ = σ ∨ σ.NamesFor action σ₁) ∧
      (σ₁.Spares m.step.session ∨ ∃ n ∈ σ.resettable action, ∃ generator ∈ action.generators,
        σ₁.Erases n generator e m.step.session)
  /-- and so has a selection by kind that fails once the body of the naming option has ended -/
  named : ∀ call n kind generator callee tag e, m.task = .finish call →
    call.purpose = .name n kind generator callee → m.step.settled = some (tag, .error e) →
    m.session.Spares m.step.session
  /-- what is wrong with the arguments of a statement that runs generators is found out before
  anything is done -/
  reasons : ∀ σ tag action e, m.task = .begin σ tag action → σ.Reason action e →
    m.step.settled = some (tag, .error e) ∧ m.Stays ∧ m.session.Spares m.step.session
  /-- a statement that writes, assigns, defines or asks for a definition does nothing if it fails -/
  altered : ∀ σ tag tag' action e, m.task = .begin σ tag action → action.alters = true →
    m.step.settled = some (tag', .error e) →
    m.step.session.store = m.session.store ∧ m.Stays ∧ m.session.Spares m.step.session
  /-- no declaration is written if one of them cannot be shown -/
  assigned : ∀ σ tag t properties keywords items item e,
    m.task = .begin σ tag (.assign t properties keywords) →
    declarationItems (properties.getD .null) (.ofList keywords) = .ok items → item ∈ items →
    itemLine σ.appearance item = .error e →
    (∃ e', m.step.settled = some (tag, .error e')) ∧ m.step.session.store = m.session.store
  /-- and when the failure is recorded, everything stays as it was left -/
  recorded : ∀ tag e, m.settled = some (tag, .error e) → m.session.Spares m.step.session

theorem spares_of_proceeds {m₀ : Machine} {tag : Tag} {s : Stmt} (h : m.Proceeds m₀ tag s) :
    m.session.Spares m₀.session := by
  cases h with
  | script => exact .refl _
  | body => exact ⟨.refl _, fun _ => rfl, ⟨rfl, rfl⟩, rfl, rfl, rfl⟩

/-- A statement begins with everything as it was before the step. -/
theorem spares_of_task {σ : Session} {tag : Tag} {action : Action Datum (List Stmt)}
    (h : m.task = .begin σ tag action) :
    m.session.Spares σ ∧ σ.store = m.session.store ∧
      σ.calls.map Call.purpose = m.session.calls.map Call.purpose := by
  obtain ⟨m₀, s, -, proceeds, he, -⟩ := proceeds_of_task h
  have hb := (Session.keeps_evalAction s.action).beside he
  exact ⟨(spares_of_proceeds proceeds).trans (.of_beside hb), hb.store.trans proceeds.store,
    hb.calls ▸ proceeds.purposes⟩

/-- The step in which a statement is done as it begins. -/
theorem step_of_done {σ σ' : Session} {tag : Tag} {action : Action Datum (List Stmt)}
    {r : Except Error Result} (h : m.task = .begin σ tag action)
    (hd : σ.begin action = .done σ' r) :
    m.step.settled = some (tag, r) ∧ m.step.session = σ' ∧ m.Stays := by
  obtain ⟨m₀, s, -, proceeds, he, step⟩ := proceeds_of_task h
  have hc := σ.calls_begin action
  rw [hd] at hc
  rw [perform_done (m := { m₀ with session := σ }) hd] at step
  refine ⟨by rw [step], by rw [step], ?_⟩
  unfold Stays
  rw [step, ← (spares_of_task h).2.2]
  exact congrArg (List.map Call.purpose) hc

/-- A statement that fails as it begins. -/
theorem done_of_settled {σ : Session} {tag tag' : Tag} {action : Action Datum (List Stmt)}
    {r : Except Error Result} (h : m.task = .begin σ tag action)
    (hs : m.step.settled = some (tag', r)) : tag' = tag ∧ ∃ σ', σ.begin action = .done σ' r := by
  obtain ⟨m₀, s, settled, proceeds, he, step⟩ := proceeds_of_task h
  cases hb : σ.begin action with
  | done σ' r' =>
    have := hs.symm.trans (step_of_done h hb).1
    cases this
    exact ⟨rfl, σ', rfl⟩
  | enter σ' purpose body =>
    rw [step, perform_enter (m := { m₀ with session := σ }) hb] at hs
    cases (proceeds.settled.trans settled).symm.trans hs

/-- The step of a statement whose arguments cannot be worked out. -/
theorem step_of_refuse {σ : Session} {tag : Tag} {e : Error} (h : m.task = .refuse σ tag e) :
    m.step.settled = some (tag, .error e) ∧ m.Stays ∧ m.session.Spares m.step.session := by
  cases m.turn with
  | settle settled =>
    unfold Machine.task at h
    rw [settled] at h
    cases h
  | @begin m₀ tag' s settled proceeds step =>
    rw [task_of_proceeds settled proceeds] at h
    unfold taskOf at h
    rw [beginStmt_eq] at step
    cases he : Session.evalAction s.action m₀.session with
    | error e' =>
      rw [he] at h step
      cases h
      simp only at step
      unfold Stays
      rw [step]
      exact ⟨rfl, proceeds.purposes, (spares_of_proceeds proceeds :)⟩
    | ok p =>
      rw [he] at h
      cases h
  | finish settled calls rest =>
    unfold Machine.task at h
    simp only [settled, calls, rest] at h
    cases h
  | idle settled calls steps =>
    unfold Machine.task at h
    simp only [settled, calls, steps] at h
    cases h

/-- The step in which the body of a call ends. -/
theorem step_of_finish {call : Call} (h : m.task = .finish call) :
    m.settled = none ∧ m.step = m.finishCall call := by
  obtain ⟨settled, rest, below, calls⟩ := call_of_task h
  exact ⟨settled, step_of_ended settled calls rest⟩

/-- A selection by kind that fails after the body of the naming option. -/
theorem spares_of_named {call : Call} {n : NodeId} {kind : Datum} {generator : Option Datum}
    {callee : Datum} {tag : Tag} {e : Error} (ht : m.task = .finish call)
    (hp : call.purpose = .name n kind generator callee)
    (hs : m.step.settled = some (tag, .error e)) : m.session.Spares m.step.session := by
  obtain ⟨settled, step⟩ := step_of_finish ht
  have key : (m.session.finish call.purpose).Refuses m.session [] [] := by
    rw [hp]
    exact Session.refuses_selectNamed m.session n .null generator
  unfold finishCall at step
  cases hf : m.session.finish call.purpose with
  | done σ' r =>
    rw [hf] at step
    rw [step] at hs ⊢
    cases hs
    have hk : m.session.Spares σ' := (key.fails σ' e hf).resolve_right fun ⟨_, hn, _⟩ => by cases hn
    exact hk.trans ⟨.refl _, fun _ => rfl, ⟨rfl, rfl⟩, rfl, rfl, rfl⟩
  | enter σ' purpose body =>
    rw [hf] at step
    rw [step] at hs
    cases settled.symm.trans hs

/-- In every state of a script statements that fail do so before they have done anything, apart from
what naming options do, and from resets whose generators turn out not to take a rule set. -/
theorem refusesCleanly (s : Script) (k : Nat) : (run k (load s)).RefusesCleanly := by
  have hg := grounded s k
  have held := (shares s k).held
  generalize run k (load s) = m at hg held
  exact
    { evaluated := fun _ _ _ => step_of_refuse
      begun := fun σ tag tag' action e ht hf hs => by
        obtain ⟨rfl, σ', hd⟩ := done_of_settled ht hs
        obtain ⟨hstore, hgσ⟩ := hg.task ht
        obtain ⟨-, hsession, stays⟩ := step_of_done ht hd
        obtain ⟨σ₁, h₁, h₂⟩ := Session.refuses_begin hgσ (hstore ▸ held) hf
        refine ⟨rfl, stays, (spares_of_task ht).1, σ₁, h₁, ?_⟩
        rw [hsession]
        exact h₂.fails σ' e hd
      named := fun _ _ _ _ _ _ _ => spares_of_named
      reasons := fun σ tag action e ht hr => by
        obtain ⟨σ₁, hb, h₁, -⟩ := Session.refuse_of_reason hr
        obtain ⟨hs, hsession, stays⟩ := step_of_done ht hb
        exact ⟨hs, stays, hsession ▸ (spares_of_task ht).1.trans h₁⟩
      altered := fun σ tag tag' action e ht ha hs => by
        obtain ⟨rfl, σ', hd⟩ := done_of_settled ht hs
        obtain ⟨-, hsession, stays⟩ := step_of_done ht hd
        obtain rfl := Session.eq_of_alters ha hd
        obtain ⟨spares, store, -⟩ := spares_of_task ht
        exact ⟨hsession ▸ store, stays, hsession ▸ spares⟩
      assigned := fun σ tag t properties keywords items item e ht hi hm hl => by
        obtain ⟨e', hb⟩ := Session.exists_error_of_assign hi hm hl
        obtain ⟨hs, hsession, -⟩ := step_of_done ht hb
        exact ⟨⟨e', hs⟩, hsession ▸ (spares_of_task ht).2.1⟩
      recorded := fun tag e hs => by
        rw [step_of_raises (r := .error e) (e := e) ⟨hs, rfl⟩]
        exact ⟨.refl _, fun _ => rfl, ⟨rfl, rfl⟩, rfl, rfl, rfl⟩ }

end Machine

/-- A script with a tree that is cleared on reset, and whose naming option writes. It selects by kind
with a number for a generator, and then resets with a kind for one. -/
def Script.erasing : Script where
  steps := [
    .mk (.build (.text "a") (.inline []) none [
      ("class_name", .inline [.mk (.write (.handle "root") (.text "named;")) none none]),
      ("clear_on_reset", .bool true)]) (some "root") none,
    .mk (.select (.handle "root") "select_class" (some (.kind "Kind")) (some (.int 5))) none none,
    .mk (.reset (.handle "root") (.kind "Kind")) none none]
  generators := .empty
  logs := false

/-- Neither the selection nor the reset has run any statement of its generator. But the naming option
has written by the time that the number is found not to be callable; and a kind is callable, but takes
no rule set, which is empty by then. -/
theorem Machine.erasing_uncalled :
    ((run 7 (load .erasing)).failure? = some (⟨[1], none, none⟩, .missingGenerator) ∧
      ¬ (run 3 (load .erasing)).session.Spares (run 7 (load .erasing)).session) ∧
    ¬ ∀ k tag e, (run k (load .erasing)).settled = none → (run k (load .erasing)).Stays →
      (run k (load .erasing)).step.failure? = some (tag, e) →
      (run k (load .erasing)).session.Spares (run k (load .erasing)).step.session := by
  refine ⟨⟨by decide +kernel, fun h => ?_⟩, fun h => ?_⟩
  · have hn : 0 < (run 3 (load .erasing)).session.store.next := by decide +kernel
    have ht : ((run 7 (load .erasing)).session.store.get 0).text ≠
        ((run 3 (load .erasing)).session.store.get 0).text := by decide +kernel
    exact ht (congrArg RuleSet.text (h.store.get 0 hn))
  · have hn : 0 < (run 8 (load .erasing)).session.store.next := by decide +kernel
    have ht : ((run 8 (load .erasing)).step.session.store.get 0).text ≠
        ((run 8 (load .erasing)).session.store.get 0).text := by decide +kernel
    have stays : (run 8 (load .erasing)).Stays := by
      unfold Stays
      rw [List.isEmpty_iff.1 (show (run 8 (load .erasing)).session.calls.isEmpty = true by
        decide +kernel)]
      rw [List.isEmpty_iff.1 (show (run 8 (load .erasing)).step.session.calls.isEmpty = true by
        decide +kernel)]
    have hs := h 8 ⟨[2], none, none⟩ .badArguments (Option.isNone_iff_eq_none.1 (by decide +kernel))
      stays (by decide +kernel)
    exact ht (congrArg RuleSet.text (hs.store.get 0 hn))

end RuleTree
