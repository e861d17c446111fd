import RuleTree.Proofs.Creating.Instead
import RuleTree.Proofs.Sheets.Built
import RuleTree.Proofs.Sheets.Latest

/-!
# The ways to create a style sheet

* `Unhosted`: options among which there is no host;
* `Session.begin_create_pair`, `Session.begin_create_keyword`, `Session.begin_render`: a host and a
  generator can be passed in three ways, each of which begins in the same way;
* `Machine.createsAlike`: and so each of them comes to the same;
* `Session.buildRoot_cases`, `Session.build_cases`: whatever a root is built for, it is refused for
  the same reason, or the same body is run;
* `Machine.performs_create_iff`: to create a style sheet without a host is to build a tree without a
  selector and to serialize it;
* `Machine.KeepsRegistries`, `Machine.WorksFor`, `Machine.sparesRegistries`: meanwhile no step changes
  the registries that is not one of the generator.
-/

namespace RuleTree

/-- No option is named like the host. -/
def Unhosted (options : List (String × Datum)) : Prop := ∀ e ∈ options, e.1 ≠ Session.hostOption

@[simp] theorem Datum.isNull_null : Datum.null.isNull = true := rfl

theorem Unhosted.not_contains {options : List (String × Datum)} (h : Unhosted options) :
    (Table.ofList options).contains Session.hostOption = false := by
  refine Bool.eq_false_iff.2 fun hc => ?_
  obtain ⟨e, he, hk⟩ := List.mem_map.1 ((Table.contains_iff ..).1 hc)
  rcases Table.mem_insertAll he with he | he
  · cases he
  · exact h e he hk

theorem Unhosted.erase {options : List (String × Datum)} (h : Unhosted options) :
    (Table.ofList options).erase Session.hostOption = .ofList options :=
  Table.erase_of_not_contains h.not_contains

theorem Unhosted.find? {options : List (String × Datum)} (h : Unhosted options) :
    (Table.ofList options).find? Session.hostOption = none :=
  Table.find?_of_not_contains h.not_contains

namespace Session

variable {σ : Session} {host generator : Datum} {options : List (String × Datum)}

/-! ### How the ways begin -/

section Begin

variable (unhosted : Unhosted options)
include unhosted

/-- A host and a generator that are passed by position begin the request to the first registry. -/
theorem begin_create_pair (hg : generator.isNull = false) :
    σ.begin (.create [host, generator] none options) =
      σ.obtain firstRegistry host generator (.ofList options) .css := by
  show σ.create [host, generator] .null (.ofList options) = _
  unfold create
  simp only [unhosted.find?, unhosted.erase]
  simp [createWith, hg]

/-- A generator passed by position and a host passed by name begin the request to the first
registry. -/
theorem begin_create_keyword (hh : host.isNull = false) :
    σ.begin (.create [generator] (some host) options) =
      σ.obtain firstRegistry host generator (.ofList options) .css := by
  show σ.create [generator] host (.ofList options) = _
  unfold create
  simp only [unhosted.not_contains, unhosted.erase]
  simp [createWith, hh]

/-- Without a host a tree is built for its text. -/
theorem begin_create_single (hc : σ.callable generator = true) :
    σ.begin (.create [generator] none options) =
      σ.build (.text "") generator none (.ofList options) .css := by
  show σ.create [generator] .null (.ofList options) = _
  unfold create
  simp only [unhosted.find?, unhosted.erase]
  simp [createWith, hc]
  rfl

end Begin

/-- A registry is asked for the style sheet. -/
theorem begin_render {name : String} {id : RegistryId} (hn : σ.registryNames.find? name = some id) :
    σ.begin (.render name host generator options) =
      σ.obtain id host generator (.ofList options) .css := by
  unfold begin onRegistry withRegistry
  simp only [hn]

/-! ### What is run, and what for -/

theorem launch_cases (σ : Session) (generator : Datum) (n : NodeId) :
    (∃ σ₁ e, ∀ purpose, σ.launch purpose generator n = .refuse σ₁ e) ∨
      ∃ σ₁ body, ∀ purpose, σ.launch purpose generator n = .enter σ₁ purpose body := by
  unfold launch
  cases σ.apply generator (.node n) with
  | gives σ₁ d => exact .inr ⟨σ₁, [], fun _ => rfl⟩
  | fails e => exact .inl ⟨σ, e, fun _ => rfl⟩
  | runs body => exact .inr ⟨σ, body, fun _ => rfl⟩

/-- Whatever a root is built for, it is refused for the same reason, or the same body is run. -/
theorem buildRoot_cases (σ : Session) (selector host generator : Datum) (options : Table Datum) :
    (∃ σ₁ e, ∀ purpose, σ.buildRoot selector host generator options purpose = .refuse σ₁ e) ∨
      ∃ σ₁ body, ∀ purpose, σ.buildRoot selector host generator options purpose =
        .enter σ₁ (purpose σ.store.next) body := by
  unfold buildRoot
  split
  · cases OptionSet.merge (optionsDatum options) with
    | error e => exact .inl ⟨σ, e, fun _ => rfl⟩
    | ok o =>
      simp only
      generalize σ.store.plant selector (givenHost host) o = store
      cases hr : ({ σ with store } : Session).record .generating
          (store.get σ.store.next).selector with
      | error e => exact .inl ⟨_, e, fun _ => fill_of_error hr _ _⟩
      | ok σ₁ =>
        rcases σ₁.launch_cases generator σ.store.next with ⟨σ₂, e, h⟩ | ⟨σ₂, body, h⟩
        · exact .inl ⟨σ₂, e, fun _ => (fill_of_ok hr _ _).trans (h _)⟩
        · exact .inr ⟨σ₂, body, fun _ => (fill_of_ok hr _ _).trans (h _)⟩
  · exact .inl ⟨σ, .missingGenerator, fun _ => rfl⟩

/-- Building a tree is refused at once, or a body is entered, whatever is to become of the tree. -/
theorem build_cases (σ : Session) (selector generator : Datum) (host : Option Datum)
    (options : Table Datum) :
    (∃ σ₁ e, ∀ out, σ.build selector generator host options out = .refuse σ₁ e) ∨
      ∃ σ₁ body, ∀ out, σ.build selector generator host options out =
        .enter σ₁ (.build σ.store.next out) body := by
  unfold build
  split
  · exact .inl ⟨σ, _, fun _ => rfl⟩
  · split
    · exact .inl ⟨σ, _, fun _ => rfl⟩
    · rcases σ.buildRoot_cases selector ((host.orElse fun _ => options.find? hostOption).getD .null)
        generator (options.erase hostOption) with ⟨σ₁, e, h⟩ | ⟨σ₁, body, h⟩
      · exact .inl ⟨σ₁, e, fun _ => h _⟩
      · exact .inr ⟨σ₁, body, fun _ => h _⟩

/-- The style sheet of a host is filled once and then done with. -/
theorem steady_of_obtain {id : RegistryId} {options : Table Datum} {out : Output} {σ₁ : Session}
    {purpose : Purpose} {body : List Stmt}
    (h : σ.obtain id host generator options out = .enter σ₁ purpose body) : purpose.Steady := by
  rcases enter_of_obtain h with ⟨_, _, hr⟩ | ⟨σ₂, i, -, hb⟩
  · cases purpose_of_reset hr
    exact fun _ => ⟨_, _, rfl⟩
  · rcases σ₂.buildRoot_cases (.text "") host generator options with ⟨_, _, hs⟩ | ⟨_, _, hs⟩
    · cases (hs _).symm.trans hb
    · cases (hs _).symm.trans hb
      exact fun _ => ⟨_, _, rfl⟩

end Session

/-- The text of the tree that a build has given. -/
def Session.serialized (σ : Session) (r : Except Error Result) : Except Error Result :=
  r.bind fun
    | .value (.node n) => σ.output n .css
    | a => .ok a

namespace Machine

variable {m m₁ : Machine} {tag : Tag} {r : Except Error Result} {host generator : Datum}
  {options : List (String × Datum)}

/-! ### With a host -/

/-- Objects that are kept alive, in whatever order they were passed. -/
theorem mem_heldBy_of_arguments {σ : Session} {action action' : Action Datum (List Stmt)}
    (ht : action.target? = none) (ht' : action'.target? = none)
    (ha : ∀ d, d ∈ action'.arguments ↔ d ∈ action.arguments) (i : Identity) :
    i ∈ σ.heldBy action' ↔ i ∈ σ.heldBy action := by
  unfold Session.heldBy
  rw [ht, ht']
  simp only [List.mem_append, List.mem_flatMap, ha]

/-- For a host and a generator the three ways to create a style sheet come to the same. -/
structure CreatesAlike (m : Machine) (host generator : Datum) (options : List (String × Datum)) :
    Prop where
  keyword : ∀ tag r m₁, m.Performs tag (.create [host, generator] none options) r m₁ ↔
    m.Performs tag (.create [generator] (some host) options) r m₁
  render : ∀ name, m.session.registryNames.find? name = some firstRegistry → ∀ tag r m₁,
    m.Performs tag (.create [host, generator] none options) r m₁ ↔
      m.Performs tag (.render name host generator options) r m₁

theorem createsAlike (m : Machine) (hh : host.isNull = false) (hg : generator.isNull = false)
    (unhosted : Unhosted options) : m.CreatesAlike host generator options := by
  have hb : m.session.begin (.create [host, generator] none options) = _ :=
    Session.begin_create_pair unhosted hg
  have steady (σ : Session) (p : Purpose) (body : List Stmt)
      (h : m.session.begin (.create [host, generator] none options) = .enter σ p body) : p.Steady :=
    Session.steady_of_obtain (hb ▸ h)
  exact {
    keyword := fun tag r m₁ =>
      performs_iff ((Session.begin_create_keyword unhosted hh).trans hb.symm) steady
        (mem_heldBy_of_arguments rfl rfl fun d => by simp [Action.arguments, or_left_comm])
    render := fun name hn tag r m₁ =>
      performs_iff ((Session.begin_render hn).trans hb.symm) steady
        (mem_heldBy_of_arguments rfl rfl fun d => by simp [Action.arguments]) }

/-! ### Without a host -/

/-- A text is not kept alive. -/
theorem mem_heldBy_single (σ : Session) (generator : Datum) (options : List (String × Datum))
    (i : Identity) : i ∈ σ.heldBy (.create [generator] none options) ↔
      i ∈ σ.heldBy (.build (.text "") generator none options) := Iff.rfl

theorem begin_build_single (σ : Session) (generator : Datum) (options : List (String × Datum)) :
    σ.begin (.build (.text "") generator none options) =
      σ.build (.text "") generator none (.ofList options) .node := rfl

/-- Where the node was wanted, its text can be had instead. -/
theorem EndsInstead.built {n : NodeId} {outer : List Call} {m' : Machine}
    (h : EndsInstead (.build n .node) (.build n .css) tag outer m m')
    (hs : m.settled = some (tag, r)) :
    m' = { m with settled := some (tag, m.session.serialized r) } := by
  cases h with
  | failed fails =>
    obtain ⟨e, settled⟩ := fails.settled
    cases hs.symm.trans settled
    exact fails.same.trans (congrArg (fun s => ({ m with settled := s } : Machine)) settled)
  | @ended σ _ _ _ finish finish' session settled same =>
    cases finish
    cases finish'
    cases hs.symm.trans settled
    have hr : σ.output n .css = m.session.serialized (.ok (.value (.node n))) := by
      rw [session]
      rfl
    rw [same, hr]
    rfl

section Single

variable (hc : m.session.callable generator = true) (unhosted : Unhosted options)
include hc unhosted

/-- A tree is built if the style sheet is created instead, which then is its text. -/
theorem create_corresponds (tag : Tag) :
    m.Corresponds m tag tag (.build (.text "") generator none options)
      (.create [generator] none options) fun m₁ m₁' r r' =>
        r' = m₁.session.serialized r ∧ m₁' = { m₁ with settled := some (tag, r') } := by
  have hb := Session.begin_create_single unhosted hc
  have hb' := begin_build_single m.session generator options
  rcases m.session.build_cases (.text "") generator none (.ofList options) with
    ⟨σ, e, hs⟩ | ⟨σ, body, hs⟩
  · exact corresponds_of_done (hb'.trans (hs .node)) (hb.trans (hs .css)) ⟨rfl, rfl⟩
  · refine (corresponds_instead (hb'.trans (hs .node)) (hb.trans (hs .css))
      (.build _ .node .css (mem_heldBy_single m.session generator options))
      (Purpose.endsLike_build _ .node .css) tag).mono ?_
    rintro m₁ m₁' r r' ⟨ends, hset, hset'⟩
    cases ends.built hset
    cases hset'
    exact ⟨rfl, rfl⟩

/-- To create a style sheet without a host is to build a tree without a selector and to serialize
it. -/
theorem performs_create_iff : m.Performs tag (.create [generator] none options) r m₁ ↔
    ∃ r' m₁', m.Performs tag (.build (.text "") generator none options) r' m₁' ∧
      r = m₁'.session.serialized r' ∧ m₁ = { m₁' with settled := some (tag, r) } := by
  have hc := create_corresponds hc unhosted tag
  constructor
  · exact hc.back
  · rintro ⟨r', m₁', h', rfl, rfl⟩
    obtain ⟨_, _, h, rfl, rfl⟩ := hc.forth h'
    exact h

end Single

/-! ### What happens to registries -/

/-- The next step leaves the registries and their names as they are. -/
def KeepsRegistries (m : Machine) : Prop :=
  m.step.session.registries = m.session.registries ∧
    m.step.session.registryNames = m.session.registryNames

/-- The next step is one of the body that a call with a given tag runs on top of others, or of a body
that is run from there: a statement of such a body begins, or it goes on once its own body has
ended. -/
inductive WorksFor (m : Machine) (tag : Tag) (outer : List Call) : Prop
  | begins {inner : List Call} {call : Call} {σ : Session} {t : Tag}
    {action : Action Datum (List Stmt)} (calls : m.session.calls = inner ++ call :: outer)
    (tag : call.tag = tag) (task : m.task = .begin σ t action)
  | goesOn {first : Call} {inner : List Call} {call : Call}
    (calls : m.session.calls = first :: (inner ++ call :: outer)) (tag : call.tag = tag)
    (task : m.task = .finish first)

/-- While a build is in progress, a step that is not one of its generator leaves the registries as
they are. -/
theorem Awaits.keeps_or_works {outer : List Call} {n : NodeId} {out : Output}
    (h : m.Awaits outer (.build n out) tag) : m.KeepsRegistries ∨ m.WorksFor tag outer := by
  obtain ⟨inner, call, hcalls, hpurpose, htag⟩ := h
  unfold KeepsRegistries
  cases m.turn with
  | @settle t r settled step =>
    obtain ⟨handles, saved, hk⟩ := keepResult_eq m.session t r
    left
    rw [step]
    unfold Machine.settle record
    rw [hk]
    simp only
    split <;> exact ⟨rfl, rfl⟩
  | @begin m₀ t s settled proceeds step =>
    have ht := task_of_proceeds settled proceeds
    rw [beginStmt_eq] at step
    unfold taskOf at ht
    cases he : Session.evalAction s.action m₀.session with
    | error e =>
      rw [he] at step
      left
      rw [step]
      cases proceeds <;> exact ⟨rfl, rfl⟩
    | ok p =>
      rw [he] at ht
      exact .inr (.begins hcalls htag ht)
  | @finish top below settled calls rest step =>
    cases inner with
    | nil =>
      -- the body of the build itself has ended
      obtain ⟨rfl, rfl⟩ := List.cons.inj (calls.symm.trans hcalls)
      left
      rw [step]
      unfold finishCall
      rw [hpurpose]
      exact ⟨rfl, rfl⟩
    | cons first inner =>
      obtain ⟨rfl, rfl⟩ := List.cons.inj (calls.symm.trans hcalls)
      refine .inr (.goesOn hcalls htag ?_)
      unfold task
      simp only [settled, calls, rest]
  | idle _ _ _ step =>
    left
    rw [step]
    exact ⟨rfl, rfl⟩

/-- A statement changes the registries only by what a body does that it runs. -/
structure SparesRegistries (m : Machine) (tag : Tag) (action : Action Datum (List Stmt)) : Prop where
  begins : (m.perform tag action).session.registries = m.session.registries ∧
    (m.perform tag action).session.registryNames = m.session.registryNames
  meanwhile : ∀ k, (∀ j ≤ k,
      m.session.calls.length < (run j (m.perform tag action)).session.calls.length) →
    (run k (m.perform tag action)).KeepsRegistries ∨
      (run k (m.perform tag action)).WorksFor tag m.session.calls

/-- To create a style sheet without a host changes the registries only by what the generator does. -/
theorem sparesRegistries (hc : m.session.callable generator = true) (unhosted : Unhosted options)
    (tag : Tag) : m.SparesRegistries tag (.create [generator] none options) := by
  have hb := Session.begin_create_single unhosted hc
  have ha : (m.session.begin (.create [generator] none options)).Amends m.session [] :=
    hb ▸ Session.amends_build ..
  constructor
  · obtain ⟨hr, hn⟩ := m.registries_perform tag (.create [generator] none options)
    obtain ⟨_, _, _, _, -, hs⟩ := ha.session
    rw [hr, hn, hs]
    exact ⟨rfl, rfl⟩
  · intro k hlong
    rcases m.session.build_cases (.text "") generator none (.ofList options) with
      ⟨σ, e, hs⟩ | ⟨σ, body, hs⟩
    · have hlt := hlong 0 (Nat.zero_le k)
      rw [run_zero, perform_done (hb.trans (hs .css)),
        (performs_of_done (hb.trans (hs .css)) tag).choose_spec.2.2.1] at hlt
      exact absurd hlt (Nat.lt_irrefl _)
    · exact (awaits_of_longer (hb.trans (hs .css)) (fun _ => ⟨_, _, rfl⟩) hlong).keeps_or_works

end Machine

end RuleTree
