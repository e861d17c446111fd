import RuleTree.Proofs.Sheets.Sound
import RuleTree.Session.Begin

/-!
# The same session in the middle of other calls

* `Interchangeable`: calls that run on the same, work on the same registries, and keep the same
  objects alive as others;
* `Session.within`, `Start.within`: a session, and what a statement comes to, in the middle of other
  calls;
* `Session.alive_within`, `Session.entries_within`, `Session.chain_within` and the like: with
  interchangeable calls the same is alive, and so the same is visible and filed;
* `Session.evalAction_within`: the arguments of statements do not depend on the calls;
* `Session.begin_within`, `Session.finish_within`: with interchangeable calls every statement begins,
  and goes on, in the same way.
-/

namespace RuleTree

/-- Calls that run on the same as others, work on the same registries, and keep the same objects
alive. -/
structure Interchangeable (calls calls' : List Call) : Prop where
  subjects : (calls'.filterMap fun c => c.purpose.subject?) =
    calls.filterMap fun c => c.purpose.subject?
  registries : (calls'.filterMap fun c => c.purpose.registry?) =
    calls.filterMap fun c => c.purpose.registry?
  links : ∀ i, i ∈ calls'.flatMap Call.links ↔ i ∈ calls.flatMap Call.links

/-- A session in the middle of other calls. -/
def Session.within (σ : Session) (calls : List Call) : Session := { σ with calls }

/-- What a statement comes to in the middle of other calls. -/
def Start.within (calls : List Call) : Start → Start
  | .done σ r => .done (σ.within calls) r
  | .enter σ purpose body => .enter (σ.within calls) purpose body

/-- What calling a value comes to in the middle of other calls. -/
def Applied.within (calls : List Call) : Applied → Applied
  | .gives σ d => .gives (σ.within calls) d
  | .fails e => .fails e
  | .runs body => .runs body

namespace Session

variable {σ : Session} {calls : List Call}

/-! ### What is alive -/

section Alive

variable (h : Interchangeable σ.calls calls)
include h

theorem mem_roots_within (i : Identity) : i ∈ (σ.within calls).roots ↔ i ∈ σ.roots := by
  unfold roots
  simp only [List.mem_append]
  rw [show (σ.within calls).calls = calls from rfl, h.links]
  rfl

theorem has_livingWith_within (entries : List Entry) (i : Identity) :
    ((σ.within calls).livingWith entries).has i = (σ.livingWith entries).has i := by
  have hstart (j : Identity) :
      j ∈ (σ.within calls).roots ++ entries.map (fun e => .node e.sheet) ↔
        j ∈ σ.roots ++ entries.map fun e => .node e.sheet := by
    rw [List.mem_append, List.mem_append, mem_roots_within h]
  rw [Bool.eq_iff_iff, has_livingWith_iff, has_livingWith_iff]
  exact or_congr Iff.rfl
    ⟨Linked.mono fun j hj => (hstart j).1 hj, Linked.mono fun j hj => (hstart j).2 hj⟩

theorem openEntries_within : (σ.within calls).openEntries = σ.openEntries := by
  unfold openEntries openRegistries
  rw [show (σ.within calls).calls = calls from rfl, h.registries]
  rfl

theorem alive_within (i : Identity) : (σ.within calls).alive i = σ.alive i := by
  unfold alive living
  rw [openEntries_within h, lasting_congr (has_livingWith_within h), has_livingWith_within h]

theorem entries_within (id : RegistryId) : (σ.within calls).entries id = σ.entries id :=
  List.filter_congr fun e _ => alive_within h e.host

theorem sheet?_within (id : RegistryId) (host : Identity) :
    (σ.within calls).sheet? id host = σ.sheet? id host := by
  unfold sheet?
  rw [entries_within h]
  rfl

theorem chain_within (n : NodeId) : (σ.within calls).chain n = σ.chain n := by
  have ha : (fun m => (σ.within calls).living.has (.node m)) = fun m => σ.living.has (.node m) :=
    funext fun m => alive_within h (.node m)
  unfold chain
  simp only [ha]
  rfl

theorem parent?_within (n : NodeId) : (σ.within calls).parent? n = σ.parent? n := by
  unfold parent?
  simp only [alive_within h]
  rfl

theorem hostOf_within (n : NodeId) : (σ.within calls).hostOf n = σ.hostOf n := by
  have hf : (σ.within calls).followHost = σ.followHost := by
    funext d
    unfold followHost
    simp only [alive_within h]
  unfold hostOf
  rw [chain_within h, hf]
  rfl

theorem sees_within (n : NodeId) (name : String) :
    (σ.within calls).sees n name = σ.sees n name := by
  unfold sees
  rw [chain_within h]
  rfl

theorem reference_within (n : NodeId) (name : String) :
    (σ.within calls).reference n name = σ.reference n name := by
  unfold reference
  rw [sees_within h]

theorem target_within (t : Target) : (σ.within calls).target t = σ.target t := by
  cases t with
  | handle name => rfl
  | enclosing depth =>
    have he : (σ.within calls).enclosing = σ.enclosing := h.subjects
    unfold target
    simp only [he]

theorem heldBy_within (action : Action Datum (List Stmt)) :
    (σ.within calls).heldBy action = σ.heldBy action := by
  have ht : (σ.within calls).target = σ.target := funext (target_within h)
  unfold heldBy
  rw [ht]

end Alive

/-! ### Arguments -/

/-- A computation that does not depend on the calls. -/
def Eval.Within {α : Type} (c : Eval α) : Prop :=
  ∀ σ calls, c (within σ calls) = (c σ).map fun p => (p.1, p.2.within calls)

namespace Eval.Within

variable {α β γ : Type}

theorem pure (a : α) : Within (Pure.pure a : Eval α) := fun _ _ => rfl

theorem throw (e : Error) : Within (throw e : Eval α) := fun _ _ => rfl

theorem lift (r : Except Error α) : Within (liftM r : Eval α) := fun _ _ => by cases r <;> rfl

theorem bind {c : Eval α} {f : α → Eval β} (hc : Within c) (hf : ∀ a, Within (f a)) :
    Within (c >>= f) := by
  intro σ calls
  show (c (σ.within calls)).bind (fun p => f p.1 p.2) =
    ((c σ).bind fun p => f p.1 p.2).map fun p => (p.1, p.2.within calls)
  rw [hc σ calls]
  cases c σ with
  | error e => rfl
  | ok p => exact hf p.1 p.2 calls

theorem newStamp : Within Session.newStamp := fun _ _ => rfl

theorem newGenerator (body : List Stmt) : Within (Session.newGenerator body) := fun _ _ => rfl

theorem newKind (name : String) : Within (Session.newKind name) := by
  unfold Session.newKind
  split
  · exact .bind (.throw _) fun _ => .bind .newStamp fun _ => .pure _
  · exact .bind .newStamp fun _ => .pure _

/-- Going on with something of the session that is not its calls. -/
theorem get {f : Session → Eval α} {g : Session → β} {k : β → Eval α} (hf : f = fun σ => k (g σ))
    (hg : ∀ σ calls, g (within σ calls) = g σ) (hk : ∀ b, Within (k b)) :
    Within (MonadState.get >>= f) := by
  subst hf
  intro σ calls
  show k (g (σ.within calls)) (σ.within calls) = _
  rw [hg]
  exact hk (g σ) σ calls

theorem requireKey (d : Datum) : Within (Session.requireKey d) := by
  refine .get (g := hasHash) (k := fun hasHash => if !d.isKey hasHash then
    MonadExcept.throw .notHashable else Pure.pure ()) rfl (fun _ _ => rfl) fun b => ?_
  split
  · exact .throw _
  · exact .pure _

/-! ### Several arguments -/

variable {f : α → Eval γ} (hf : ∀ a, Within (f a))
include hf

theorem mapM (as : List α) : Within (as.mapM f) := by
  induction as with
  | nil => exact .pure []
  | cons a as ih =>
    rw [List.mapM_cons]
    exact .bind (hf a) fun _ => .bind ih fun _ => .pure _

theorem evaluateOption (a : Option α) : Within (Action.evaluateOption f a) := by
  cases a with
  | none => exact .pure _
  | some a => exact .bind (hf a) fun _ => .pure _

theorem evaluateNamed (named : List (String × α)) : Within (Action.evaluateNamed f named) := by
  unfold Action.evaluateNamed
  exact .mapM (fun e => .bind (hf e.2) fun _ => .pure _) named

theorem evaluateKind (kind : HostKind α) : Within (Action.evaluateKind f kind) := by
  cases kind with
  | equal key => exact .bind (hf key) fun _ => .pure _
  | plain | callable | empty | unhashable => exact .pure _

theorem evaluate (action : Action α β) : Within (action.evaluate f) := by
  cases action with
  | select t method argument generator =>
    exact .bind (.evaluateOption hf _) fun _ => .bind (.evaluateOption hf _) fun _ => .pure _
  | assign t properties keywords =>
    exact .bind (.evaluateOption hf _) fun _ => .bind (.evaluateNamed hf _) fun _ => .pure _
  | write | define | setScope | reset | setOption | lookup | release | contains =>
    exact .bind (hf _) fun _ => .pure _
  | build | construct =>
    exact .bind (hf _) fun _ => .bind (hf _) fun _ => .bind (.evaluateOption hf _) fun _ =>
      .bind (.evaluateNamed hf _) fun _ => .pure _
  | create arguments host options =>
    exact .bind (.mapM hf _) fun _ => .bind (.evaluateOption hf _) fun _ =>
      .bind (.evaluateNamed hf _) fun _ => .pure _
  | makeHost name kind => exact .bind (.evaluateKind hf _) fun _ => .pure _
  | obtain | render =>
    exact .bind (hf _) fun _ => .bind (hf _) fun _ => .bind (.evaluateNamed hf _) fun _ => .pure _
  | check | var | read | iterate | advance | same | drop | dropHost | makeRegistry | size
  | labelRegistry | clear | raise | attempt => exact .pure _

end Eval.Within

mutual

theorem eval_within : (e : Expr) → Eval.Within (eval e)
  | .null | .bool _ | .int _ | .text _ | .named _ => .pure _
  | .integer _ => .bind (.lift _) fun _ => .pure _
  | .decimal _ => .bind (.lift _) fun _ => .bind .newStamp fun _ => .pure _
  | .kind name => .newKind name
  | .naming _ => .bind .newStamp fun _ => .pure _
  | .list items => .bind (evalItems_within items) fun _ => .pure _
  | .dict entries => .bind (evalEntries_within entries) fun _ =>
      .get (g := equal) (k := fun equal => Pure.pure (.ofPairs equal _)) rfl (fun _ _ => rfl)
        fun _ => .pure _
  | .concat parts => .bind (evalItems_within parts) fun _ => .bind (.lift _) fun _ => .pure _
  | .host name => .get (g := hostNames) (k := fun names =>
      Pure.pure (((names.find? name).map Datum.host).getD .null)) rfl (fun _ _ => rfl)
      fun _ => .pure _
  | .saved name => .get (g := Session.saved) (k := fun saved =>
      Pure.pure ((saved.find? name).getD .null)) rfl (fun _ _ => rfl) fun _ => .pure _
  | .inline body => .bind (.newGenerator body) fun _ => .pure _

theorem evalItems_within : (es : List Expr) → Eval.Within (evalItems es)
  | [] => .pure _
  | e :: rest => .bind (eval_within e) fun _ => .bind (evalItems_within rest) fun _ => .pure _

theorem evalEntries_within : (es : List (Expr × Expr)) → Eval.Within (evalEntries es)
  | [] => .pure _
  | (k, v) :: rest =>
    .bind (eval_within k) fun _ => .bind (eval_within v) fun _ =>
      .bind (.requireKey _) fun _ => .bind (evalEntries_within rest) fun _ => .pure _

end

theorem className_within (rule : Naming) (name : Option String) :
    Eval.Within (className rule name) := by
  unfold className
  split
  · split
    · exact eval_within _
    · exact .throw _
  · exact .throw _
  · exact .pure _
  · exact .pure _
  · exact .pure _
  · exact .throw _

/-- The arguments of statements do not depend on the calls. -/
theorem evalAction_within (action : Action Expr (List Stmt)) : Eval.Within (evalAction action) :=
  .evaluate eval_within action

/-! ### Running generators -/

variable {n : NodeId} {purpose : Purpose} {options : Table Datum}

theorem record_within (event : LogEvent) (d : Datum) :
    (σ.within calls).record event d = (σ.record event d).map (within · calls) := by
  unfold record
  rw [show (σ.within calls).log = σ.log from rfl,
    show (σ.within calls).appearance = σ.appearance from rfl]
  cases σ.log with
  | none => rfl
  | some records => cases d.label σ.appearance <;> rfl

theorem record_store_within (σ : Session) (calls : List Call) (store : Store) (event : LogEvent)
    (d : Datum) : ({ σ.within calls with store } : Session).record event d =
      (({ σ with store } : Session).record event d).map (within · calls) := by
  show (({ σ with store } : Session).within calls).record event d = _
  exact record_within event d

theorem apply_within (callee subject : Datum) :
    (σ.within calls).apply callee subject = (σ.apply callee subject).within calls := by
  unfold apply
  cases callee with
  | generator g => rfl
  | host k =>
    simp only
    rw [show (σ.within calls).hostKind k = σ.hostKind k from rfl]
    cases σ.hostKind k with
    | callable =>
      cases subject with
      | node n =>
        simp only
        rw [show (σ.within calls).store = σ.store from rfl,
          show (σ.within calls).hostText k = σ.hostText k from rfl]
        cases σ.store.write n (.text (σ.hostText k)) <;> rfl
      | _ => rfl
    | _ => rfl
  | naming rule stamp =>
    simp only
    rw [show (σ.within calls).kindName? = σ.kindName? from rfl, className_within]
    cases className rule (σ.kindName? subject) σ <;> rfl
  | _ => rfl

theorem launch_within (generator : Datum) :
    (σ.within calls).launch purpose generator n = (σ.launch purpose generator n).within calls := by
  unfold launch
  rw [apply_within]
  cases σ.apply generator (.node n) <;> rfl

theorem fill_within (store : Store) (generator : Datum) :
    (σ.within calls).fill store n purpose generator =
      (σ.fill store n purpose generator).within calls := by
  have hr := σ.record_store_within calls store .generating (store.get n).selector
  cases hx : ({ σ with store } : Session).record .generating (store.get n).selector with
  | error e =>
    rw [hx] at hr
    rw [fill_of_error hx, fill_of_error (σ := σ.within calls) hr]
    rfl
  | ok σ₁ =>
    rw [hx] at hr
    rw [fill_of_ok hx, fill_of_ok (σ := σ.within calls) hr, launch_within]

theorem reset_within (registry : Option RegistryId) (out : Output) (generator : Datum) :
    (σ.within calls).reset n registry out generator =
      (σ.reset n registry out generator).within calls := by
  have hr := σ.record_store_within calls (σ.store.clearForReset n) .resetting
    ((σ.store.clearForReset n).get n).selector
  cases hg : σ.callable generator with
  | false =>
    unfold reset
    rw [show (σ.within calls).callable generator = false from hg, hg]
    rfl
  | true =>
    have hg' : (σ.within calls).callable generator = true := hg
    cases hx : ({ σ with store := σ.store.clearForReset n } : Session).record .resetting
        ((σ.store.clearForReset n).get n).selector with
    | error e =>
      rw [hx] at hr
      rw [reset_of_error hg hx, reset_of_error hg' hr]
      rfl
    | ok σ₁ =>
      rw [hx] at hr
      rw [reset_of_ok hg hx, reset_of_ok hg' hr, launch_within]

/-! ### Selecting and building -/

theorem selectFrom_within (className : Option Datum) (fragment : Datum)
    (generator : Option Datum) :
    (σ.within calls).selectFrom n className fragment generator =
      (σ.selectFrom n className fragment generator).within calls := by
  unfold selectFrom
  cases generator with
  | none => rfl
  | some generator =>
    simp only
    split
    · rfl
    · rw [show (σ.within calls).store = σ.store from rfl,
        show (σ.within calls).stamps = σ.stamps from rfl]
      cases (σ.store.get n).selector.plus σ.stamps fragment with
      | error e => rfl
      | ok selector =>
        simp only
        rw [show (σ.within calls).callable generator = σ.callable generator from rfl]
        split
        · exact fill_within (σ := { σ with stamps := σ.stamps + 1 }) _ _
        · rfl

theorem selectNamed_within (className : Datum) (generator : Option Datum) :
    (σ.within calls).selectNamed n className generator =
      (σ.selectNamed n className generator).within calls := by
  unfold selectNamed
  rw [show (σ.within calls).appearance = σ.appearance from rfl]
  cases Method.kind.fragmentOf σ.appearance className with
  | error e => rfl
  | ok fragment => exact selectFrom_within ..

theorem selectKind_within (kind : Datum) (generator : Option Datum) :
    (σ.within calls).selectKind n kind generator =
      (σ.selectKind n kind generator).within calls := by
  unfold selectKind
  simp only
  rw [apply_within, show (σ.within calls).store = σ.store from rfl]
  cases σ.apply (σ.store.optionsOf n).className kind with
  | gives σ₁ d => exact selectNamed_within ..
  | fails e => rfl
  | runs body => rfl

theorem callMethod_within (name : String) (argument generator : Option Datum) :
    (σ.within calls).callMethod n name argument generator =
      (σ.callMethod n name argument generator).within calls := by
  unfold callMethod
  cases Method.named name with
  | error e => rfl
  | ok m =>
    simp only
    cases m.bind argument generator with
    | error e => rfl
    | ok bound =>
      simp only
      split
      · exact selectKind_within ..
      · unfold selectBy
        rw [show (σ.within calls).appearance = σ.appearance from rfl]
        cases m.fragmentOf σ.appearance (bound.1.getD .null) with
        | error e => rfl
        | ok fragment => exact selectFrom_within ..

theorem buildRoot_within (selector host generator : Datum) (purpose : NodeId → Purpose) :
    (σ.within calls).buildRoot selector host generator options purpose =
      (σ.buildRoot selector host generator options purpose).within calls := by
  unfold buildRoot
  rw [show (σ.within calls).callable generator = σ.callable generator from rfl]
  split
  · cases OptionSet.merge (optionsDatum options) with
    | error e => rfl
    | ok o => exact fill_within ..
  · rfl

theorem build_within (selector generator : Datum) (host : Option Datum) (out : Output) :
    (σ.within calls).build selector generator host options out =
      (σ.build selector generator host options out).within calls := by
  unfold build
  split
  · rfl
  · split
    · rfl
    · exact buildRoot_within ..

theorem construct_within (selector generator host : Datum) (parent : Option NodeId) :
    (σ.within calls).construct selector generator host options parent =
      (σ.construct selector generator host options parent).within calls := by
  unfold construct
  cases parent with
  | none => exact buildRoot_within ..
  | some p =>
    simp only
    rw [show (σ.within calls).callable generator = σ.callable generator from rfl]
    split
    · exact fill_within ..
    · rfl

/-! ### Reading -/

theorem probe_within (listed : List (String × Picture)) (names : List String) :
    (σ.within calls).probe n listed names = (σ.probe n listed names).within calls := by
  induction names generalizing σ listed with
  | nil =>
    unfold probe
    rfl
  | cons name rest ih =>
    unfold probe
    simp only
    rw [show (σ.within calls).store = σ.store from rfl,
      show (σ.within calls).callable = σ.callable from rfl,
      show (σ.within calls).views = σ.views from rfl, apply_within]
    split
    · cases σ.apply (((σ.store.optionsOf n).get? name).getD .null) OptionSet.sample with
      | gives σ₁ d =>
        unfold Applied.within
        simp only
        rw [show (σ₁.within calls).views = σ₁.views from rfl]
        cases d.picture σ₁.views with
        | error e => rfl
        | ok given => exact ih _
      | fails e => rfl
      | runs body => rfl
    · cases (((σ.store.optionsOf n).get? name).getD .null).picture σ.views with
      | error e => rfl
      | ok p => exact ih _

section Statements

variable (h : Interchangeable σ.calls calls)
include h

theorem readNode_within (facet : Facet) :
    (σ.within calls).readNode n facet = (σ.readNode n facet).within calls := by
  unfold readNode
  cases facet with
  | parent =>
    simp only
    rw [parent?_within h]
    rfl
  | host =>
    simp only
    rw [hostOf_within h]
    rfl
  | options => exact probe_within ..
  | child index =>
    simp only
    rw [show (σ.within calls).store = σ.store from rfl]
    cases childAt (σ.store.get n).children index <;> rfl
  | _ => rfl

theorem read_within (subject : Datum) (facet : Facet) :
    (σ.within calls).read subject facet = (σ.read subject facet).within calls := by
  unfold read
  split
  · exact readNode_within h facet
  · split <;> rfl

omit h in
theorem iterate_within (subject : Datum) (walk : Walk) (name : String) :
    (σ.within calls).iterate subject walk name = (σ.iterate subject walk name).within calls := by
  unfold iterate
  simp only
  split <;> rfl

omit h in
theorem advance_within (name : String) (count : Nat) :
    (σ.within calls).advance name count = (σ.advance name count).within calls := by
  unfold advance
  rw [show (σ.within calls).iterations = σ.iterations from rfl]
  cases σ.iterations.find? name <;> rfl

/-! ### Style sheets of hosts -/

theorem obtain_within (id : RegistryId) (host generator : Datum) (out : Output) :
    (σ.within calls).obtain id host generator options out =
      (σ.obtain id host generator options out).within calls := by
  unfold obtain
  split
  · rfl
  rw [show (σ.within calls).callable generator = σ.callable generator from rfl]
  split
  · rw [show (σ.within calls).asHost host = σ.asHost host from rfl]
    cases σ.asHost host with
    | error e => rfl
    | ok i =>
      simp only
      rw [sheet?_within h, record_within, record_within]
      cases σ.sheet? id i with
      | some sheet =>
        simp only
        cases σ.record .resettingSheet host with
        | error e => rfl
        | ok σ₁ => exact reset_within ..
      | none =>
        simp only
        cases σ.record .buildingSheet host with
        | error e => rfl
        | ok σ₁ =>
          unfold Except.map
          simp only
          split
          · rfl
          · exact buildRoot_within ..
  · rfl

theorem createWith_within (host first second : Datum) :
    (σ.within calls).createWith host first second options =
      (σ.createWith host first second options).within calls := by
  unfold createWith
  split
  · split
    · exact obtain_within h ..
    · rfl
  · split
    · exact obtain_within h ..
    · rw [show (σ.within calls).callable first = σ.callable first from rfl]
      split
      · exact build_within ..
      · rfl

theorem create_within (arguments : List Datum) (host : Datum) :
    (σ.within calls).create arguments host options =
      (σ.create arguments host options).within calls := by
  unfold create
  split
  · rfl
  rcases arguments with _ | ⟨first, _ | ⟨second, _ | ⟨third, rest⟩⟩⟩
  · rfl
  · exact createWith_within h _ first .null
  · exact createWith_within h _ first second
  · rfl

theorem release_within (id : RegistryId) (host : Datum) :
    (σ.within calls).release id host = (σ.release id host).within calls := by
  unfold release
  have hb := @Beside.of_record σ
  rw [record_within]
  cases hr : σ.record .releasingSheet host with
  | error e => rfl
  | ok σ₁ =>
    have h₁ : Interchangeable σ₁.calls calls := (hb hr).calls ▸ h
    unfold Except.map
    simp only
    rw [show (σ₁.within calls).asHost host = σ₁.asHost host from rfl]
    cases σ₁.asHost host with
    | error e =>
      cases e with
      | notHashable =>
        simp only
        rw [entries_within h₁]
        split <;> rfl
      | _ => rfl
    | ok i =>
      simp only
      unfold eraseSheet
      rw [sheet?_within h₁, entries_within h₁]
      rfl

/-! ### Statements -/

theorem onNode_within (t : Target) {act act' : NodeId → Start}
    (ha : ∀ n, act' n = (act n).within calls) :
    (σ.within calls).onNode t act' = (σ.onNode t act).within calls := by
  unfold onNode
  rw [target_within h]
  split
  · exact ha _
  · rfl

omit h in
theorem changeStore_within (store : Except Error Store) (result : Store → Result) :
    (σ.within calls).changeStore store result = (σ.changeStore store result).within calls := by
  cases store <;> rfl

theorem onRegistry_within (name : String) (act : Session → RegistryId → Start)
    (ha : ∀ σ id, Interchangeable σ.calls calls → act (σ.within calls) id = (act σ id).within calls) :
    (σ.within calls).onRegistry name act = (σ.onRegistry name act).within calls := by
  have hw : (σ.within calls).withRegistry name =
      ((σ.withRegistry name).1.within calls, (σ.withRegistry name).2) := by
    unfold withRegistry
    rw [show (σ.within calls).registryNames = σ.registryNames from rfl]
    cases σ.registryNames.find? name <;> rfl
  have hc : (σ.withRegistry name).1.calls = σ.calls := by
    unfold withRegistry
    split <;> rfl
  unfold onRegistry
  rw [hw]
  exact ha _ _ (hc ▸ h)

/-- With interchangeable calls a statement begins in the same way. -/
theorem begin_within (action : Action Datum (List Stmt)) :
    (σ.within calls).begin action = (σ.begin action).within calls := by
  cases action with
  | select t method argument generator => exact onNode_within h t fun n => callMethod_within ..
  | write | assign | define | setOption => exact onNode_within h _ fun n => changeStore_within ..
  | setScope => exact onNode_within h _ fun n => rfl
  | check t name =>
    refine onNode_within h t fun n => ?_
    rw [sees_within h]
    rfl
  | var t name =>
    refine onNode_within h t fun n => ?_
    rw [reference_within h]
    rfl
  | reset t generator => exact onNode_within h t fun n => reset_within ..
  | read t facet =>
    unfold begin
    simp only
    rw [target_within h]
    exact read_within h ..
  | iterate t walk iteration =>
    unfold begin
    simp only
    rw [target_within h]
    exact iterate_within ..
  | advance iteration count => exact advance_within ..
  | build selector generator host options => exact build_within ..
  | construct selector generator host options parent => exact construct_within ..
  | create arguments host options => exact create_within h ..
  | lookup name host =>
    refine onRegistry_within h name (fun σ id => .answer σ (σ.lookup id host)) fun σ id h => ?_
    unfold lookup
    simp only [sheet?_within h]
    rfl
  | release name host =>
    exact onRegistry_within h name (fun σ id => σ.release id host)
      fun σ id h => release_within h id host
  | contains name host =>
    refine onRegistry_within h name (fun σ id => .answer σ (σ.containsHost id host))
      fun σ id h => ?_
    unfold containsHost
    simp only [sheet?_within h]
    rfl
  | size name =>
    refine onRegistry_within h name
      (fun σ id => .answer σ (.ok (.value (.int (σ.entries id).length)))) fun σ id h => ?_
    simp only [entries_within h]
    rfl
  | labelRegistry name =>
    refine onRegistry_within h name (fun σ id => .answer σ (.ok (.text (σ.registryLabel id))))
      fun σ id h => ?_
    unfold registryLabel
    simp only [entries_within h]
    rfl
  | clear name =>
    exact onRegistry_within h name (fun σ id => .done (σ.setEntries id []) (.ok .nothing))
      fun σ id h => rfl
  | obtain name host generator options =>
    exact onRegistry_within h name
      (fun σ id => σ.obtain id host generator (.ofList options) .node) fun σ id h =>
        obtain_within h ..
  | render name host generator options =>
    exact onRegistry_within h name
      (fun σ id => σ.obtain id host generator (.ofList options) .css) fun σ id h =>
        obtain_within h ..
  | _ => rfl

/-- A statement goes on in the same way once its body has ended, whatever calls it is nested in. -/
theorem finish_within (purpose : Purpose) :
    (σ.within calls).finish purpose = (σ.finish purpose).within calls := by
  cases purpose with
  | register id host n out =>
    unfold finish putSheet
    simp only
    rw [entries_within h]
    rfl
  | name n kind generator callee => exact selectNamed_within .null generator
  | probe n callee listed name rest => exact probe_within _ rest
  | _ => rfl

end Statements

end Session

end RuleTree
