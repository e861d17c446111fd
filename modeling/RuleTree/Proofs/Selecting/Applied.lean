import RuleTree.Proofs.Blocks.Serialization
import RuleTree.Proofs.Creating.Forms
import RuleTree.Proofs.Rebuilding.Alike
import RuleTree.Proofs.Selecting.Methods

/-!
# Selecting in two steps

A method with a generator does the same as the selection of a fragment as it stands, applied to what
the method gives without one.

* `Datum.SeenAlike`, `Method.fragmentOf_congr`: a fragment depends on how the rule sets and hosts
  look that its argument refers to, and on nothing else of the state;
* `Session.nameLinks`: what a class name refers to, which the selection by it keeps alive;
* `Session.selectOrFail`: what becomes of a fragment that may turn out not to be there;
* `Session.selectFrom_cases`: whatever class name a fragment comes from, it is selected in the same
  way;
* `Machine.asks`, `Machine.selects`, `Machine.Composes`: the two steps one after another;
* `Machine.completes_selectFrom_iff`: it does not matter who keeps the class name alive;
* `Machine.completes_iff_of_known`, `Machine.completes_iff_of_runs`: the fragment is known at once,
  or a naming option runs statements first;
* `Machine.AppliesSelect`, `Machine.appliesSelect`: so every method does the same as the two steps;
* `Machine.applied_otherwise`: but a naming option may write; a rule set that is an argument may
  change; and the class name could be let go between the two steps.
-/

namespace RuleTree

/-! ### What a fragment depends on -/

namespace Datum

/-- Looking the same in two appearances, wherever among the contents of a value: so do all hosts and
rule sets that it refers to. -/
structure SeenAlike (look look' : Appearance) (d : Datum) : Prop where
  host : ∀ id, .host id ∈ d.identities → look.host id = look'.host id
  node : ∀ n, .node n ∈ d.identities → look.node n = look'.node n
  blocks : ∀ n, .node n ∈ d.identities → look.blocks n = look'.blocks n

variable {look look' : Appearance} {d : Datum}

theorem Detached.seenAlike (h : d.Detached) : d.SeenAlike look look' where
  host id hi := absurd rfl (h _ hi id).1
  node n hi := absurd rfl (h _ hi n).2
  blocks n hi := absurd rfl (h _ hi n).2

theorem label_congr (h : d.SeenAlike look look') : d.label look = d.label look' :=
  (label_renumber (f := fun _ => 0) (g := fun _ => 0) d (fun _ _ => rfl) fun _ _ => rfl).symm.trans
    (label_renumber d h.host h.node)

theorem spelled_congr (h : d.SeenAlike look look') : d.spelled look = d.spelled look' := by
  cases d with
  | text s => rfl
  | node n => exact congrArg (Except.map String.join) (h.blocks n List.mem_cons_self)
  | _ => exact label_congr h

theorem selectorList_congr (h : d.SeenAlike look look') :
    selectorList look d = selectorList look' d :=
  (selectorList_bare look look d fun _ _ => rfl).symm.trans
    (selectorList_bare look look' d fun n hd => h.blocks n (hd ▸ List.mem_cons_self))

end Datum

/-- A fragment depends on nothing but what its argument looks like. -/
theorem Method.fragmentOf_congr {look look' : Appearance} {d : Datum}
    (h : d.SeenAlike look look') (method : Method) :
    method.fragmentOf look d = method.fragmentOf look' d := by
  cases method with
  | fragment => rfl
  | joined c =>
    unfold Method.fragmentOf
    rw [Datum.spelled_congr h]
  | kind =>
    unfold Method.fragmentOf
    rw [Datum.spelled_congr h]
  | descendant => rfl
  | shortcut s =>
    unfold Method.fragmentOf Shortcut.fragment Shortcut.format
    rw [Datum.spelled_congr h, Datum.selectorList_congr h]

/-- The fragment for a naming option that gives nothing. -/
theorem Method.fragmentOf_kind_null (look : Appearance) :
    Method.kind.fragmentOf look .null = .ok (.text ".None") := by
  have hj : Combinator.className.token ++ nullLabel = ".None" := by decide
  unfold Method.fragmentOf Datum.spelled
  simp only [Datum.label, Except.map, Combinator.join, hj]

/-! ### Calling methods -/

theorem Method.takes_of_bind {m : Method} {first last argument generator : Option Datum}
    (h : m.bind first last = .ok (argument, generator)) : m.Takes argument := by
  unfold bind at h
  unfold Takes
  split at h
  · rename_i ht
    split at h
    · rename_i hf
      cases h
      exact hf.trans ht.symm
    · cases h
  · rename_i ht
    have ht : (none : Option Datum).isSome = m.takesArgument := (Bool.eq_false_iff.2 ht).symm
    split at h
    · cases h
    · cases h
      exact ht
    · cases h
      exact ht

namespace Session

variable {σ : Session} {n : NodeId}

/-- A method gets its argument and its generator, whichever place they are passed in. -/
theorem callMethod_of_bind {name : String} {method : Method} (hm : Method.named name = .ok method)
    {first last argument generator : Option Datum}
    (hb : method.bind first last = .ok (argument, generator)) :
    σ.callMethod n name first last = σ.callMethod n name argument generator := by
  unfold callMethod
  rw [hm]
  simp only [hb, Method.bind_of_takes (Method.takes_of_bind hb)]

/-- The method that takes a fragment as it stands. -/
theorem callMethod_select (σ : Session) (n : NodeId) (fragment generator : Datum) :
    σ.callMethod n "select" (some fragment) (some generator) =
      σ.select n fragment (some generator) := by
  have hm : Method.named "select" = .ok .fragment :=
    Method.named_of_ofName? (by decide +kernel)
  have ha : Method.fragment.Takes (some fragment) := rfl
  exact callMethod_some hm ha nofun σ n generator

/-- A naming option that runs statements gives no class name. -/
theorem selectNamed_null (σ : Session) (n : NodeId) (generator : Option Datum) :
    σ.selectNamed n .null generator = σ.selectFrom n (some .null) (.text ".None") generator := by
  unfold selectNamed
  rw [Method.fragmentOf_kind_null]

/-- Whatever class name a fragment comes from, the same is done at once, or the same body is run. -/
theorem selectFrom_cases (σ : Session) (n : NodeId) (fragment generator : Datum) :
    (∃ σ₁ r, ∀ className, σ.selectFrom n className fragment (some generator) = .done σ₁ r) ∨
      ∃ σ₁ child body, ∀ className, σ.selectFrom n className fragment (some generator) =
        .enter σ₁ (.select child fragment className) body := by
  unfold selectFrom
  simp only
  split
  · exact .inl ⟨σ, _, fun _ => rfl⟩
  · cases (σ.store.get n).selector.plus σ.stamps fragment with
    | error e => exact .inl ⟨σ, _, fun _ => rfl⟩
    | ok selector =>
      simp only
      split
      · generalize σ.store.sprout n selector none = store
        cases hr : ({ σ with stamps := σ.stamps + 1, store } : Session).record .generating
            (store.get σ.store.next).selector with
        | error e => exact .inl ⟨_, _, fun _ => fill_of_error hr _ _⟩
        | ok σ₁ =>
          rcases σ₁.launch_cases generator σ.store.next with ⟨σ₂, e, h⟩ | ⟨σ₂, body, h⟩
          · exact .inl ⟨σ₂, _, fun _ => (fill_of_ok hr _ _).trans (h _)⟩
          · exact .inr ⟨σ₂, _, body, fun _ => (fill_of_ok hr _ _).trans (h _)⟩
      · exact .inl ⟨σ, _, fun _ => rfl⟩

/-- What the class name refers to that a method selects by. Only a kind of element has one, if the
naming option gives it without running statements. -/
def nameLinks (σ : Session) (n : NodeId) (method : Method) (argument : Option Datum) :
    List Identity :=
  if method = .kind then
    match σ.apply (σ.store.optionsOf n).className (argument.getD .null) with
    | .gives _ className => className.identities
    | _ => []
  else []

theorem begin_callMethod {t : Target} (ht : σ.target t = .node n) (name : String)
    (first last : Option Datum) :
    σ.begin (.select t name first last) = σ.callMethod n name first last := by
  unfold begin onNode
  simp only [ht]

/-- Select by a fragment that may turn out not to be there. -/
def selectOrFail (σ : Session) (n : NodeId) (className generator : Option Datum) :
    Except Error Datum → Start
  | .error e => .refuse σ e
  | .ok fragment => σ.selectFrom n className fragment generator

/-- Without a generator there is nothing to select. -/
theorem selectOrFail_none (σ : Session) (n : NodeId) (className : Option Datum)
    (x : Except Error Datum) : σ.selectOrFail n className none x = .answer σ (x.map .value) := by
  cases x <;> rfl

theorem selectNamed_eq (σ : Session) (n : NodeId) (className : Datum) (generator : Option Datum) :
    σ.selectNamed n className generator =
      σ.selectOrFail n (some className) generator
        (Method.kind.fragmentOf σ.appearance className) := by
  unfold selectNamed
  cases Method.kind.fragmentOf σ.appearance className <;> rfl

theorem selectBy_eq (σ : Session) (n : NodeId) (m : Method) (argument : Datum)
    (generator : Option Datum) :
    σ.selectBy n m argument generator =
      σ.selectOrFail n none generator (m.fragmentOf σ.appearance argument) := by
  unfold selectBy
  cases m.fragmentOf σ.appearance argument <;> rfl

end Session

/-! ### Two steps -/

namespace Machine

variable {m m₁ m' : Machine} {tag : Tag} {held kept : List Identity} {n : NodeId} {name : String}
  {argument : Option Datum} {fragment generator : Datum} {r : Except Error Result} {e : Error}

/-- Call a method without a generator, so that it gives its fragment. -/
def asks (m : Machine) (tag : Tag) (held : List Identity) (n : NodeId) (name : String)
    (argument : Option Datum) : Machine :=
  m.commence tag held (m.session.callMethod n name argument none)

/-- Select by a fragment as it stands. -/
def selects (m : Machine) (tag : Tag) (held : List Identity) (n : NodeId)
    (fragment generator : Datum) : Machine :=
  m.commence tag held (m.session.callMethod n "select" (some fragment) (some generator))

/-- What it comes to if a method is asked for its fragment, and the rules are then selected by that.
The first step keeps some objects alive, and so does the second one. -/
inductive Composes (m : Machine) (tag : Tag) (held kept : List Identity) (n : NodeId)
    (name : String) (argument : Option Datum) (generator : Datum) :
    Except Error Result → Machine → Prop
  | failed {e : Error} {m₁ : Machine}
    (asked : (m.asks tag held n name argument).Completes tag m.session.calls (.error e) m₁) :
    Composes m tag held kept n name argument generator (.error e) m₁
  | selected {fragment : Datum} {m' m₁ : Machine} {r : Except Error Result}
    (asked : (m.asks tag held n name argument).Completes tag m.session.calls
      (.ok (.value fragment)) m')
    (selected : (selects { m' with settled := none } tag kept n fragment generator).Completes tag
      m.session.calls r m₁) :
    Composes m tag held kept n name argument generator r m₁

theorem Composes.exists_asked (h : m.Composes tag held kept n name argument generator r m₁) :
    ∃ r' m', (m.asks tag held n name argument).Completes tag m.session.calls r' m' := by
  cases h with
  | failed asked => exact ⟨_, _, asked⟩
  | selected asked _ => exact ⟨_, _, asked⟩

theorem composes_iff_of_failed
    (asked : (m.asks tag held n name argument).Completes tag m.session.calls (.error e) m') :
    m.Composes tag held kept n name argument generator r m₁ ↔ r = .error e ∧ m₁ = m' := by
  constructor
  · intro h
    cases h with
    | failed asked' =>
      obtain ⟨he, rfl⟩ := asked'.unique asked
      exact ⟨he, rfl⟩
    | selected asked' _ => cases (asked'.unique asked).1
  · rintro ⟨rfl, rfl⟩
    exact .failed asked

theorem composes_iff_of_asked (asked : (m.asks tag held n name argument).Completes tag
      m.session.calls (.ok (.value fragment)) m') :
    m.Composes tag held kept n name argument generator r m₁ ↔
      (selects { m' with settled := none } tag kept n fragment generator).Completes tag
        m.session.calls r m₁ := by
  constructor
  · intro h
    cases h with
    | failed asked' => cases (asked'.unique asked).1
    | selected asked' selected =>
      obtain ⟨hf, rfl⟩ := asked'.unique asked
      cases hf
      exact selected
  · exact .selected asked

/-- It does not matter whether a class name is kept alive by the selection itself or besides. -/
theorem completes_selectFrom_iff {className className' : Option Datum} {held' : List Identity}
    (kept : ∀ i, i ∈ held' ++ className'.toList.flatMap Datum.identities ↔
      i ∈ held ++ className.toList.flatMap Datum.identities) :
    (m.commence tag held (m.session.selectFrom n className fragment (some generator))).Completes tag
        m.session.calls r m₁ ↔
      (m.commence tag held'
        (m.session.selectFrom n className' fragment (some generator))).Completes tag
        m.session.calls r m₁ := by
  have hc := (m.session.does_selectFrom n className fragment (some generator)).turns.calls
  rcases m.session.selectFrom_cases n fragment generator with ⟨σ₁, r₀, h⟩ | ⟨σ₁, child, body, h⟩
  · rw [h className, h className']
    rfl
  · rw [h className] at hc
    rw [h className, h className']
    let a : Aim := ⟨.select child fragment className, held⟩
    let a' : Aim := ⟨.select child fragment className', held'⟩
    have hr : a'.Replaces a := by
      refine ⟨rfl, rfl, fun i => ?_, fun _ => rfl⟩
      have hk := kept i
      simp only [a, a', Purpose.links, List.mem_append, List.cons_append, List.mem_cons] at hk ⊢
      tauto
    refine Instead.completes_iff hr (fun _ => ⟨_, _, rfl⟩) (fun _ => rfl)
      ⟨a'.call tag body 0 :: σ₁.calls, ?_, rfl⟩
    rw [← show σ₁.calls = m.session.calls from hc]
    exact .call body 0

/-- A method whose fragment is known at once. -/
theorem completes_iff_of_known {σ₁ : Session} {className : Option Datum} {x : Except Error Datum}
    (settled : m.settled = none) (hσ : σ₁.calls = m.session.calls)
    (hcall : ∀ g, m.session.callMethod n name argument g = σ₁.selectOrFail n className g x)
    (hk : ∀ i, i ∈ kept ↔ i ∈ held ∨ i ∈ className.toList.flatMap Datum.identities) :
    (m.commence tag held (m.session.callMethod n name argument (some generator))).Completes tag
        m.session.calls r m₁ ↔
      m.Composes tag held kept n name argument generator r m₁ := by
  have asked : (m.asks tag held n name argument).Completes tag m.session.calls (x.map .value)
      { m with session := σ₁, settled := some (tag, x.map .value) } := by
    unfold asks
    rw [hcall, Session.selectOrFail_none]
    exact completes_of_settled rfl hσ
  rw [hcall]
  cases x with
  | error e =>
    rw [composes_iff_of_failed asked]
    exact (completes_of_settled rfl hσ).iff
  | ok fragment =>
    rw [composes_iff_of_asked asked, ← settled]
    unfold selects
    rw [Session.callMethod_select, ← hσ]
    refine completes_selectFrom_iff (m := { m with session := σ₁ }) fun i => ?_
    rw [List.mem_append, List.mem_append, hk]
    exact or_iff_left nofun

/-- Where the body of a naming option ends, the selection goes on in the session as it is then. -/
theorem AtEnd.step_named {a a' : Aim} {outer : List Call} {d d' callee callee' : Datum}
    {named named' : Option Datum} (ha : a.purpose = .name n d named callee)
    (ha' : a'.purpose = .name n d' named' callee') (h : AtEnd a a' tag outer m m') :
    m.step = (m.within outer).commence tag a.held
        ((m.session.within outer).selectFrom n (some .null) (.text ".None") named) ∧
      m'.step = (m.within outer).commence tag a'.held
        ((m.session.within outer).selectFrom n (some .null) (.text ".None") named') := by
  obtain ⟨hs, hs'⟩ := h.step_eq
  obtain ⟨-, index, -, rfl⟩ := h
  have hw (calls : List Call) (g : Option Datum) :
      ((m.session.within calls).selectNamed n .null g).within outer =
        (m.session.within outer).selectFrom n (some .null) (.text ".None") g := by
    rw [← Session.selectNamed_within, Session.selectNamed_null]
    rfl
  rw [ha] at hs
  rw [ha'] at hs'
  rw [hs, hs', commence_within, commence_within]
  exact ⟨congrArg _ (hw m.session.calls named), congrArg _ (hw _ named')⟩

/-- A naming option has failed or ended, whether or not there is a generator for what it names. -/
theorem completes_iff_of_ended {P : Machine} {k : Nat} {a a' : Aim} {d d' callee callee' : Datum}
    (ha : a.purpose = .name n d (some generator) callee)
    (ha' : a'.purpose = .name n d' none callee') (hk : ∀ i, i ∈ kept ↔ i ∈ a.held)
    (still : ∀ j ≤ k, Instead a a' tag m.session.calls (run j P)
      (run j (m.asks tag held n name argument)))
    (ended : FailsInstead a.purpose tag m.session.calls (run (k + 1) P)
        (run (k + 1) (m.asks tag held n name argument)) ∨
      AtEnd a a' tag m.session.calls (run k P) (run k (m.asks tag held n name argument))) :
    P.Completes tag m.session.calls r m₁ ↔
      m.Composes tag held kept n name argument generator r m₁ := by
  have long (j : Nat) (hj : j < k + 1) := (still j (Nat.le_of_lt_succ hj)).longer.1
  have long' (j : Nat) (hj : j < k + 1) := (still j (Nat.le_of_lt_succ hj)).longer.2
  rcases ended with fails | atEnd
  · obtain ⟨hc, ⟨e, settled⟩, same⟩ := fails
    rw [ha] at settled
    have asked : (m.asks tag held n name argument).Completes tag m.session.calls (.error e)
        (run (k + 1) P) := by
      rw [← completes_run_iff long', same]
      exact completes_of_settled settled hc
    rw [composes_iff_of_failed asked, ← completes_run_iff long]
    exact (completes_of_settled settled hc).iff
  · obtain ⟨hs, hs'⟩ := atEnd.step_named ha ha'
    rw [← run_step] at hs hs'
    -- without a generator the selection is done, and the second step begins where it was left
    have asked : (m.asks tag held n name argument).Completes tag m.session.calls
        (.ok (.value (.text ".None"))) (run (k + 1) (m.asks tag held n name argument)) := by
      rw [← completes_run_iff long', hs']
      exact completes_of_settled rfl rfl
    rw [composes_iff_of_asked asked, ← completes_run_iff long, hs, hs', ← atEnd.settled]
    unfold selects
    rw [Session.callMethod_select]
    refine completes_selectFrom_iff (m := (run k P).within m.session.calls) fun i => ?_
    rw [List.mem_append, List.mem_append, hk]
    rfl

/-- A method whose naming option runs statements first. -/
theorem completes_iff_of_runs {d callee : Datum} {body : List Stmt}
    (hnone : m.session.callMethod n name argument none =
      .enter m.session (.name n d none callee) body)
    (hsome : m.session.callMethod n name argument (some generator) =
      .enter m.session (.name n d (some generator) callee) body)
    (hg : ∀ i ∈ generator.identities, i ∈ held) (hk : ∀ i, i ∈ kept ↔ i ∈ held) :
    (m.commence tag held (m.session.callMethod n name argument (some generator))).Completes tag
        m.session.calls r m₁ ↔
      m.Composes tag held kept n name argument generator r m₁ := by
  let a : Aim := ⟨.name n d (some generator) callee, held⟩
  let a' : Aim := ⟨.name n d none callee, held⟩
  have hr : a'.Replaces a := by
    refine ⟨rfl, rfl, fun i => ?_, fun _ => rfl⟩
    have hi := hg i
    simp only [a, a', Purpose.links, Option.toList_some, Option.toList_none, List.flatMap_cons,
      List.flatMap_nil, List.append_nil, List.mem_append, List.mem_cons]
    tauto
  have start : Instead a a' tag m.session.calls
      (m.commence tag held (m.session.callMethod n name argument (some generator)))
      (m.asks tag held n name argument) := by
    unfold asks
    rw [hnone, hsome]
    exact ⟨_, .call body 0, rfl⟩
  constructor
  · intro h
    obtain ⟨_, still, ended⟩ := start.exists_end hr (.inl h)
    exact (completes_iff_of_ended rfl rfl hk still ended).1 h
  · intro h
    obtain ⟨_, _, asked⟩ := h.exists_asked
    obtain ⟨_, still, ended⟩ := start.exists_end hr (.inr asked)
    exact (completes_iff_of_ended rfl rfl hk still ended).2 h

/-- To call a method with a generator is to ask it for its fragment and to select by that, if the
class name is kept alive meanwhile. -/
theorem completes_callMethod_iff {method : Method} (settled : m.settled = none)
    (hm : Method.named name = .ok method) (ha : method.Takes argument)
    (hg : ∀ i ∈ generator.identities, i ∈ held) :
    (m.commence tag held (m.session.callMethod n name argument (some generator))).Completes tag
        m.session.calls r m₁ ↔
      m.Composes tag held (held ++ m.session.nameLinks n method argument) n name argument generator
        r m₁ := by
  have hcall (g : Option Datum) : m.session.callMethod n name argument g = _ :=
    Session.callMethod_of_takes hm ha m.session n g
  by_cases hk : method = .kind
  · simp only [if_pos hk] at hcall
    unfold Session.selectKind at hcall
    unfold Session.nameLinks
    rw [if_pos hk]
    cases happ : m.session.apply (m.session.store.optionsOf n).className (argument.getD .null) with
    | gives σ₁ className =>
      simp only [happ, Session.selectNamed_eq] at hcall
      have hσ : σ₁.calls = m.session.calls := (Session.turns_of_gives happ).calls
      exact completes_iff_of_known settled hσ hcall fun i => by simp
    | fails e =>
      simp only [happ] at hcall
      have hcall (g : Option Datum) : m.session.callMethod n name argument g =
        m.session.selectOrFail n none g (.error e) := hcall g
      exact completes_iff_of_known settled rfl hcall fun i => by simp
    | runs body =>
      simp only [happ] at hcall
      exact completes_iff_of_runs (hcall none) (hcall (some generator)) hg fun i => by simp
  · simp only [if_neg hk, Session.selectBy_eq] at hcall
    have hl : m.session.nameLinks n method argument = [] := if_neg hk
    rw [hl, List.append_nil]
    exact completes_iff_of_known settled rfl hcall fun i => by simp

/-! ### Every method -/

/-- Every method applies the selection of a fragment as it stands to the fragment that it gives. -/
structure AppliesSelect (m : Machine) : Prop where
  /-- there are all of them -/
  known : ∀ p ∈ Method.primitives ++ Method.shortcuts, Method.ofName? p.1 = some p.2
  /-- with a generator it comes to the same as the two steps one after another -/
  composes : m.settled = none → ∀ tag t n name method first last argument generator r m₁,
    m.session.target t = .node n → Method.ofName? name = some method →
    method.bind first last = .ok (argument, some generator) →
    (m.Performs tag (.select t name first last) r m₁ ↔
      m.Composes tag (m.session.heldBy (.select t name first last))
        (m.session.heldBy (.select t name first last) ++ m.session.nameLinks n method argument)
        n name argument generator r m₁)
  /-- without one it gives its fragment and changes nothing -/
  answers : ∀ tag t n name method first last argument r m₁,
    m.session.target t = .node n → Method.ofName? name = some method → method ≠ .kind →
    method.bind first last = .ok (argument, none) →
    (m.Performs tag (.select t name first last) r m₁ ↔
      r = (method.fragmentOf m.session.appearance (argument.getD .null)).map .value ∧
        m₁ = { m with settled := some (tag, r) })
  /-- but for a kind of element the naming option is called first -/
  names : ∀ n name kind, Method.ofName? name = some .kind →
    m.session.callMethod n name (some kind) none =
      match m.session.apply (m.session.store.optionsOf n).className kind with
      | .gives σ className =>
        .answer σ ((Method.kind.fragmentOf σ.appearance className).map .value)
      | .fails e => .refuse m.session e
      | .runs body =>
        .enter m.session (.name n kind none (m.session.store.optionsOf n).className) body
  /-- and if that runs statements, then nothing is changed after them -/
  named : ∀ n kind callee, m.session.finish (.name n kind none callee) =
    .answer m.session (.ok (.value (.text ".None")))
  /-- a fragment depends on the state only if its argument, or the class name, refers to hosts or
  rule sets, and then on how these look -/
  fixed : ∀ (method : Method) (d : Datum) (look look' : Appearance), d.Detached →
    method.fragmentOf look d = method.fragmentOf look' d
  fragments : ∀ (method : Method) (d : Datum) (look look' : Appearance), d.SeenAlike look look' →
    method.fragmentOf look d = method.fragmentOf look' d

/-- In every state, and on every rule set, all methods come down to the selection of a fragment. -/
theorem appliesSelect (m : Machine) : m.AppliesSelect where
  known := named_of_mem_methods
  composes settled tag t n name method first last argument generator r m₁ ht hm hb := by
    have hm := Method.named_of_ofName? hm
    have hg (i : Identity) (hi : i ∈ generator.identities) :
        i ∈ m.session.heldBy (.select t name first last) := by
      refine List.mem_append_right _ (List.mem_flatMap.2 ⟨generator, ?_, hi⟩)
      refine List.mem_append.2 ((Method.mem_of_bind hb generator (.inr rfl)).imp ?_ ?_) <;>
        exact Option.mem_toList.2
    rw [← completes_callMethod_iff settled hm (Method.takes_of_bind hb) hg,
      ← Session.callMethod_of_bind hm hb, ← Session.begin_callMethod ht, ← perform_eq_commence]
    rfl
  answers tag t n name method first last argument r m₁ ht hm hk hb := by
    have hm := Method.named_of_ofName? hm
    have hs : m.session.begin (.select t name first last) = _ :=
      ((Session.begin_callMethod ht name first last).trans (Session.callMethod_of_bind hm hb)).trans
        (Session.callMethod_none hm (Method.takes_of_bind hb) hk m.session n)
    have hp := performs_of_done hs tag
    constructor
    · intro h
      obtain ⟨rfl, rfl⟩ := h.unique hp
      exact ⟨rfl, rfl⟩
    · rintro ⟨rfl, rfl⟩
      exact hp
  names n name kind hm := by
    have ha : Method.kind.Takes (some kind) := rfl
    rw [Session.callMethod_of_takes (Method.named_of_ofName? hm) ha, if_pos rfl]
    unfold Session.selectKind
    simp only [Option.getD_some]
    cases m.session.apply (m.session.store.optionsOf n).className kind with
    | gives σ className =>
      exact (σ.selectNamed_eq n className none).trans (σ.selectOrFail_none n (some className) _)
    | fails e => rfl
    | runs body => rfl
  named n kind callee := Session.selectNamed_null m.session n none
  fixed method d look look' h := Method.fragmentOf_congr h.seenAlike method
  fragments method d look look' h := Method.fragmentOf_congr h method

end Machine

/-! ### What makes a difference -/

/-- A script with two trees. The naming option of the first one is its host, which gives itself
when it is called, and that of the second one writes on it. There is a generator that takes another
naming option, destroys the host and then asks for it. In the end something is written on the second
tree. -/
def Script.naming : Script where
  steps := [
    .mk (.makeHost "owner" .empty) none none,
    .mk (.build (.text "") (.inline []) (some (.host "owner"))
      [("class_name", .host "owner")]) (some "first") none,
    .mk (.build (.text "b") (.inline []) none
      [("class_name", .inline [.mk (.write (.handle "second") (.text "named;")) none none])])
      (some "second") none,
    .mk (.write (.handle "second") (.text "written;")) none none]
  generators := .ofList [("drops", [
    .mk (.setOption (.handle "first") "class_name" (.naming .own)) none none,
    .mk (.dropHost "owner") none none,
    .mk (.read (.handle "first") .host) none none])]
  logs := false

namespace Machine

/-- A kind is selected on the first tree with that generator. -/
def dropping : Action Datum (List Stmt) :=
  .select (.handle "first") "select_class" (some OptionSet.sample)
    (some (.generator (.named "drops")))

/-- The selection begins, once the two trees are built. -/
def directly : Machine := (run 8 (load .naming)).perform ⟨[3], none, none⟩ dropping

/-- The fragment has been given without the generator, and is selected with it. What the selection of
the kind is passed is kept alive. -/
def stepwise : Machine :=
  let held := (run 8 (load .naming)).session.heldBy dropping
  let asked := asks (run 8 (load .naming)) ⟨[3], none, none⟩ held 0 "select_class"
    (some OptionSet.sample)
  selects { asked with settled := none } ⟨[3], none, none⟩ held 0 (.text ".<host owner>")
    (.generator (.named "drops"))

/-- The host that is read is there as long as it is alive. -/
theorem settled_of_sheetOf {m : Machine} {tag : Tag} {n : NodeId} {h : HostId}
    (hs : m.step.settled = some (tag, .ok (.value (m.session.hostOf n))))
    (hn : m.session.store.SheetOf n (.host h)) :
    m.step.settled =
      some (tag, .ok (.value (if m.session.alive (.host h) then .host h else .null))) := by
  obtain ⟨living, dead⟩ := Session.hostOf_of_sheetOf hn
  rw [hs]
  cases ha : m.session.alive (.host h) with
  | true =>
    have hi := living ha
    cases hd : m.session.hostOf n <;> rw [hd] at hi <;> cases hi
    rfl
  | false => rw [dead ha, if_neg Bool.false_ne_true]

/-- The class name keeps the host alive. -/
theorem settled_directly :
    (run 5 directly).settled = some (⟨[3, 2], none, none⟩, .ok (.value (.host 0))) := by
  have hn : (run 4 directly).session.store.SheetOf 0 (.host 0) :=
    ⟨by decide +kernel, by decide +kernel, by with_unfolding_all rfl, .host 0,
      by with_unfolding_all rfl, rfl⟩
  have hr : (run 4 directly).step.settled =
      some (⟨[3, 2], none, none⟩, .ok (.value ((run 4 directly).session.hostOf 0))) := by
    with_unfolding_all rfl
  have ha : (run 4 directly).session.alive (.host 0) = true :=
    Session.alive_of_mem_roots (by decide +kernel)
  have hs := settled_of_sheetOf hr hn
  rwa [ha, if_pos rfl, ← run_step] at hs

/-- Nothing keeps it alive if the class name was let go. -/
theorem settled_stepwise :
    (run 5 stepwise).settled = some (⟨[3, 2], none, none⟩, .ok (.value .null)) := by
  have hn : (run 4 stepwise).session.store.SheetOf 0 (.host 0) :=
    ⟨by decide +kernel, by decide +kernel, by with_unfolding_all rfl, .host 0,
      by with_unfolding_all rfl, rfl⟩
  have hr : (run 4 stepwise).step.settled =
      some (⟨[3, 2], none, none⟩, .ok (.value ((run 4 stepwise).session.hostOf 0))) := by
    with_unfolding_all rfl
  have ha : (run 4 stepwise).session.alive (.host 0) = false :=
    Session.not_alive_of_unlinked nofun (by decide +kernel) (by decide +kernel) (by decide +kernel)
  have hs := settled_of_sheetOf hr hn
  rwa [ha, if_neg Bool.false_ne_true, ← run_step] at hs

/-- Once the last statement of the generator is told, the generator ends, and so does the selection.
-/
theorem completes_of_settled_read {P : Machine} {t : Tag} {x : Except Error Result}
    (hl : ∀ j < 6, ([] : List Call).length < (run j P).session.calls.length)
    (hs : (run 5 P).settled = some (t, x))
    (hr : ((run 5 P).settle t x).step.settled = some (tag, r))
    (hc : ((run 5 P).settle t x).step.session.calls.length = 0)
    (hm : 0 < ((run 5 P).settle t x).session.calls.length) :
    P.Completes tag [] r ((run 5 P).settle t x).step := by
  refine (completes_run_iff (k := 6) hl).1 ⟨1, ?_, hr, List.length_eq_zero_iff.1 hc, fun j hj => ?_⟩
  · rw [run_step 0, run_step 5, step_of_settled hs]
    rfl
  · rw [Nat.lt_one_iff.1 hj, run_step 5, step_of_settled hs]
    exact hm

theorem completes_directly :
    directly.Completes ⟨[3], none, none⟩ [] (.ok (.value (.text ".<host owner>")))
      ((run 5 directly).settle ⟨[3, 2], none, none⟩ (.ok (.value (.host 0)))).step :=
  completes_of_settled_read (by decide +kernel) settled_directly (by with_unfolding_all rfl)
    (by decide +kernel) (by decide +kernel)

theorem completes_stepwise :
    stepwise.Completes ⟨[3], none, none⟩ [] (.ok (.value (.text ".<host owner>")))
      ((run 5 stepwise).settle ⟨[3, 2], none, none⟩ (.ok (.value .null))).step :=
  completes_of_settled_read (by decide +kernel) settled_stepwise (by with_unfolding_all rfl)
    (by decide +kernel) (by decide +kernel)

/-- Whether the last thing that was told is nothing. -/
def toldNothing (m : Machine) : Bool :=
  match m.session.trace.back? with
  | some ⟨_, .ok .null⟩ => true
  | _ => false

/-- What the second tree shows as the name of an element. It has one rule set only. -/
theorem fragmentOf_naming {k : Nat} {blocks : List String}
    (hn : ((run k (load .naming)).session.store.get 1).selector.isText = true)
    (hc : ((run k (load .naming)).session.store.forest.get 1).children = [])
    (hb : [1].filterMap ((run k (load .naming)).session.store.rendering
      ((run k (load .naming)).session.store.optionsOf 1).emitCustomProperties.truthy) = blocks) :
    (Method.joined .id).fragmentOf (run k (load .naming)).session.appearance (.node 1) =
      .ok (.text ("#" ++ String.join blocks)) := by
  have hcss := (owned .naming k).css_eq hn (run k (load .naming)).session.hostName
  rw [Store.renderings, Forest.preorder_eq, hc, List.flatMap_nil, hb] at hcss
  exact congrArg (Except.map fun text => Datum.text (Combinator.id.join text)) hcss

/-- If nobody keeps the class name alive, then what the generator is told makes a difference. -/
theorem not_composes_of_let_go :
    ¬ ∀ r m₁, (run 8 (load .naming)).Performs ⟨[3], none, none⟩ dropping r m₁ ↔
      (run 8 (load .naming)).Composes ⟨[3], none, none⟩
        ((run 8 (load .naming)).session.heldBy dropping)
        ((run 8 (load .naming)).session.heldBy dropping)
        0 "select_class" (some OptionSet.sample) (.generator (.named "drops")) r m₁ := by
  have hcalls : (run 8 (load .naming)).session.calls = [] := by with_unfolding_all rfl
  intro h
  have hd : (run 8 (load .naming)).Performs ⟨[3], none, none⟩ dropping _ _ :=
    hcalls.symm ▸ completes_directly
  have hs : (run 8 (load .naming)).Composes ⟨[3], none, none⟩ _ _ 0 "select_class"
      (some OptionSet.sample) (.generator (.named "drops")) _ _ :=
    .selected (completes_of_settled (by with_unfolding_all rfl) (by with_unfolding_all rfl))
      (hcalls.symm ▸ completes_stepwise)
  have ht := congrArg toldNothing (hd.unique ((h _ _).2 hs)).2
  exact absurd ht (by decide +kernel)

/-- A naming option may write, though no generator is given. What a fragment says of a rule set
changes with that rule set. And what the generator is told depends on the class name being kept. -/
theorem applied_otherwise :
    (∃ r m₁, (run 8 (load .naming)).Performs ⟨[3], none, none⟩
        (.select (.handle "second") "select_class" (some OptionSet.sample) none) r m₁ ∧
      (m₁.session.store.get 1).text ≠ ((run 8 (load .naming)).session.store.get 1).text) ∧
    (Method.joined .id).fragmentOf (run 8 (load .naming)).session.appearance (.node 1) ≠
      (Method.joined .id).fragmentOf (run 10 (load .naming)).session.appearance (.node 1) ∧
    ¬ ∀ r m₁, (run 8 (load .naming)).Performs ⟨[3], none, none⟩ dropping r m₁ ↔
      (run 8 (load .naming)).Composes ⟨[3], none, none⟩
        ((run 8 (load .naming)).session.heldBy dropping)
        ((run 8 (load .naming)).session.heldBy dropping)
        0 "select_class" (some OptionSet.sample) (.generator (.named "drops")) r m₁ := by
  have hcalls : (run 8 (load .naming)).session.calls = [] := by with_unfolding_all rfl
  refine ⟨⟨.ok (.value (.text ".None")), _, ⟨3, rfl, ?_, ?_, ?_⟩, ?_⟩, ?_, not_composes_of_let_go⟩
  · with_unfolding_all rfl
  · with_unfolding_all rfl
  · rw [hcalls]
    decide +kernel
  · decide +kernel
  · rw [fragmentOf_naming (by decide +kernel) (by decide +kernel) rfl,
      fragmentOf_naming (by decide +kernel) (by decide +kernel) rfl]
    intro h
    exact absurd (Datum.text.inj (Except.ok.inj h)) (by decide +kernel)

end Machine

end RuleTree
