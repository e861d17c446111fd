import RuleTree.Proofs.Rebuilding.Twins
import RuleTree.Proofs.References.Made

/-!
# The same statement in both sessions

* `Ground.StartTwin`: a statement begins, or goes on, alike: it comes to the same, or waits for the
  same body; if the comparison is not closed, it may do anything where the second one fails;
* `Ground.Twins.record`, `Ground.Twins.launch`, `Ground.Twins.fill`, `Ground.Twins.reset`:
  generators that are run in both sessions;
* `Ground.Twins.selectFrom`, `Ground.Twins.applyNaming`, `Ground.Twins.callMethod`: selections;
* `Ground.Twins.begin`, `Ground.Twins.finish`: any contained statement begins, and goes on, alike.
-/

namespace RuleTree

/-! ### What is called -/

namespace Datum

variable {d d' : Datum}

theorem Alike.of_text (t : String) : (text t).Alike (text t) := ⟨rfl, nofun⟩

theorem eq_text_of_bare {t : String} (h : d.bare = .text t) : d = .text t := by
  cases d <;> first | exact h | cases h

/-- Of literal values only kinds of element can be called, and they take no argument. -/
theorem apply_of_literal (h : d.literal = true) (σ σ₁ : Session) (x x₁ : Datum) :
    ∃ e, e.Plain ∧ σ.apply d x = .fails e ∧ σ₁.apply d.bare x₁ = .fails e := by
  cases d with
  | kind => exact ⟨.badArguments, nofun, rfl, rfl⟩
  | host | node | nodes | generator | naming | answer => cases h
  | _ => exact ⟨.notCallable, nofun, rfl, rfl⟩

theorem callable_of_literal (h : d.literal = true) (σ σ₁ : Session) :
    σ.callable d = σ₁.callable d.bare := by
  cases d <;> first | rfl | cases h

theorem kindName?_of_literal (h : d.literal = true) (σ σ₁ : Session) :
    σ.kindName? d = σ₁.kindName? d.bare := by
  cases d <;> first | rfl | cases h

namespace PassedTwin

variable {bodies : Bodies} {depth : Nat} {σ σ' : Session}

/-- What was passed to both statements can be called on any subject alike: it fails, or its body is
run. -/
theorem apply (h : PassedTwin bodies depth σ σ' d d') (x x' : Datum) :
    (∃ e, e.Plain ∧ σ.apply d x = .fails e ∧ σ'.apply d' x' = .fails e) ∨
      ∃ body, bodies (depth + 1) body ∧ σ.apply d x = .runs body ∧ σ'.apply d' x' = .runs body := by
  cases h with
  | literal h =>
    obtain ⟨e, hp, he, hb⟩ := apply_of_literal h.left σ σ x x
    obtain ⟨e', -, he', hb'⟩ := apply_of_literal h.right σ' σ x' x
    rw [h.alike.bare, hb'] at hb
    cases hb
    exact .inl ⟨_, hp, he, he'⟩
  | generator alike left right same body =>
    refine .inr ⟨_, body, rfl, ?_⟩
    rw [same]
    rfl

theorem callable (h : PassedTwin bodies depth σ σ' d d') : σ.callable d = σ'.callable d' := by
  cases h with
  | literal h =>
    rw [callable_of_literal h.left σ σ, h.alike.bare, ← callable_of_literal h.right σ' σ]
  | generator => rfl

theorem kindName? (h : PassedTwin bodies depth σ σ' d d') : σ.kindName? d = σ'.kindName? d' := by
  cases h with
  | literal h =>
    rw [kindName?_of_literal h.left σ σ, h.alike.bare, ← kindName?_of_literal h.right σ' σ]
  | generator => rfl

theorem ne_node (h : PassedTwin bodies depth σ σ' d d') :
    (∀ m, d ≠ .node m) ∧ ∀ m, d' ≠ .node m := by
  refine ⟨fun m e => ?_, fun m e => ?_⟩
  · exact (h.alike.detached (.node m) (e ▸ List.mem_cons_self) m).2 rfl
  · exact (h.alike.symm.detached (.node m) (e ▸ List.mem_cons_self) m).2 rfl

end PassedTwin

end Datum

/-- Arguments are taken alike if they are given alike. -/
theorem Method.bind_rel (method : Method) {R : Datum → Datum → Prop}
    {argument argument' generator generator' : Option Datum}
    (ha : Option.Rel R argument argument') (hg : Option.Rel R generator generator') :
    (∃ e, method.bind argument generator = .error e ∧
        method.bind argument' generator' = .error e) ∨
      ∃ a a' b b', method.bind argument generator = .ok (a, b) ∧
        method.bind argument' generator' = .ok (a', b') ∧ Option.Rel R a a' ∧
        Option.Rel R b b' := by
  unfold bind
  split
  · cases ha with
    | none => exact .inl ⟨_, rfl, rfl⟩
    | some ha => exact .inr ⟨_, _, _, _, rfl, rfl, .some ha, hg⟩
  · cases ha with
    | none => exact .inr ⟨_, _, _, _, rfl, rfl, .none, hg⟩
    | some ha =>
      cases hg with
      | none => exact .inr ⟨_, _, _, _, rfl, rfl, .none, .some ha⟩
      | some hg => exact .inl ⟨_, rfl, rfl⟩

/-- What can be shown in two sessions or in none is recorded in both or in none, if both keep a log
or none does. -/
theorem Session.record_agree {σ σ' : Session} {d d' : Datum} (hl : σ.log.isSome = σ'.log.isSome)
    (ha : Agree (d.label σ.appearance) (d'.label σ'.appearance)) (event event' : LogEvent) :
    (∃ e, d'.label σ'.appearance = .error e ∧ σ.record event d = .error e ∧
        σ'.record event' d' = .error e) ∨
      ∃ log log', σ.record event d = .ok { σ with log } ∧
        σ'.record event' d' = .ok { σ' with log := log' } ∧ log.isSome = σ.log.isSome ∧
        log'.isSome = σ'.log.isSome := by
  unfold record
  cases hs : σ.log with
  | none =>
    cases hs' : σ'.log with
    | none => exact .inr ⟨σ.log, σ'.log, rfl, rfl, by rw [hs], by rw [hs']⟩
    | some records => rw [hs, hs'] at hl; cases hl
  | some records =>
    cases hs' : σ'.log with
    | none => rw [hs, hs'] at hl; cases hl
    | some records' =>
      simp only
      rcases ha.cases_on with ⟨e, he, he'⟩ | ⟨a, b, ha, hb⟩
      · rw [he, he']
        exact .inl ⟨e, rfl, rfl, rfl⟩
      · rw [ha, hb]
        exact .inr ⟨_, _, rfl, rfl, rfl, rfl⟩

theorem Store.write_of_not_text {s : Store} {n : NodeId} (h : ∀ t, (s.get n).selector ≠ .text t)
    (d : Datum) : s.write n d = .error .selectorNotText := by
  unfold Store.write
  split
  · rename_i e
    exact absurd e (h _)
  · rename_i e _
    exact absurd e (h _)
  · rfl

namespace Ground

variable {γ : Ground} {closed : Prop} {σ σ' σ₁ σ₁' : Session}
  {subjects : List (Option NodeId)} {n : NodeId}

/-- The same statement begins, or goes on, in both sessions. Unless the comparison is closed, it may
do anything in the first one if it fails in the second. -/
inductive StartTwin (γ : Ground) (closed : Prop) (subjects : List (Option NodeId))
    (σ σ' : Session) : Start → Start → Prop
  | done {σ₁ σ₁' : Session} {r r' : Except Error Result} (onward : γ.Onward σ σ' σ₁ σ₁')
    (told : Agreed γ.lead (r.bind (·.told σ₁.views)) (r'.bind (·.told σ₁'.views))) :
    StartTwin γ closed subjects σ σ' (.done σ₁ r) (.done σ₁' r')
  | enter {σ₁ σ₁' : Session} {purpose purpose' : Purpose} {pushed : List (Option NodeId)}
    {body : List Stmt} (onward : γ.Onward σ σ' σ₁ σ₁')
    (purposes : PurposeTwin γ σ₁ σ₁' subjects purpose purpose' pushed)
    (contained : γ.bodies (pushed ++ subjects).length body) :
    StartTwin γ closed subjects σ σ' (.enter σ₁ purpose body) (.enter σ₁' purpose' body)
  | fails (start : Start) (σ₁' : Session) (e : Error) (ajar : ¬closed) :
    StartTwin γ closed subjects σ σ' start (.refuse σ₁' e)

/-- What calling a value comes to in both sessions. -/
inductive AppliedTwin (γ : Ground) (depth : Nat) (σ σ' : Session) : Applied → Applied → Prop
  | fails {e : Error} (plain : e.Plain) : AppliedTwin γ depth σ σ' (.fails e) (.fails e)
  | gives {σ₁ σ₁' : Session} {d d' : Datum} (onward : γ.Onward σ σ' σ₁ σ₁')
    (store : σ₁'.store = σ'.store) (spelled : d.spelled σ₁.appearance = d'.spelled σ₁'.appearance)
    (plain : Plain (d'.spelled σ₁'.appearance)) :
    AppliedTwin γ depth σ σ' (.gives σ₁ d) (.gives σ₁' d')
  | runs {body : List Stmt} (contained : γ.bodies (depth + 1) body) :
    AppliedTwin γ depth σ σ' (.runs body) (.runs body)

namespace StartTwin

theorem after {start start' : Start} (ho : γ.Onward σ σ' σ₁ σ₁')
    (h : StartTwin γ closed subjects σ₁ σ₁' start start') :
    StartTwin γ closed subjects σ σ' start start' := by
  cases h with
  | done onward told => exact .done (ho.trans onward) told
  | enter onward purposes contained => exact .enter (ho.trans onward) purposes contained
  | fails start σ₁' e ajar => exact .fails _ _ e ajar

theorem refuse (h : γ.Onward σ σ' σ₁ σ₁') (e : Error) :
    StartTwin γ closed subjects σ σ' (.refuse σ₁ (e.led γ.lead)) (.refuse σ₁' e) :=
  .done h (.error e)

theorem refuse_plain (h : γ.Onward σ σ' σ₁ σ₁') {e : Error} (he : e.Plain) :
    StartTwin γ closed subjects σ σ' (.refuse σ₁ e) (.refuse σ₁' e) :=
  .done h (Agree.agreed (.error e) (.error he) γ.lead)

end StartTwin

namespace Twins

/-! ### What can be shown -/

theorem shared (h : γ.Twins σ σ') (hf : γ.Fit closed) :
    ∀ m < γ.bound, (σ.store.get m).selector = (σ'.store.get m).selector := by
  intro m hm
  have hr : m < γ.root := Nat.lt_of_lt_of_le hm hf.bound_le
  have hr' : m < γ.root' := Nat.lt_of_lt_of_le hm hf.bound_le'
  rw [h.store.older m (Nat.lt_trans hr γ.root_lt) (Nat.ne_of_lt hr),
    h.store.older' m (Nat.lt_trans hr' γ.root'_lt) (Nat.ne_of_lt hr')]
  exact hf.shared m hm

/-- What is the same up to numbers, but for the text before selectors, and refers to no other rule
sets than the selectors of the roots, can be shown in both sessions or in none. -/
theorem label_agree (h : γ.Twins σ σ') (hf : γ.Fit closed) {d d' : Datum}
    (hb : d.bare = (d'.led γ.lead).bare)
    (hr : ∀ m, .node m ∈ d'.identities →
      .node m ∈ (γ.right.store.get γ.root').selector.identities) :
    Agree (d.label σ.appearance) (d'.label σ'.appearance) :=
  Datum.label_agree_led hb fun m hm =>
    Store.label_agree (fun m hm => congrArg Datum.bare (h.shared hf m hm)) (hf.refers m (hr m hm))

/-- A rule set and what stands for it can both be told or both not. -/
theorem told_agree (h : γ.Twins σ σ') (hf : γ.Fit closed) (hn : γ.pairing.Inner σ'.store n) :
    Agreed γ.lead (Datum.told σ.views (.node (γ.pairing.image n)))
      (Datum.told σ'.views (.node n)) := by
  have le : γ.bound ≤ γ.pairing.image n ∧ γ.bound ≤ n := by
    obtain rfl | ⟨hn, -⟩ : n = γ.root' ∨ γ.right.store.next ≤ n ∧ n < σ'.store.next := hn
    · rw [γ.image_root]
      exact ⟨hf.bound_le, hf.bound_le'⟩
    · exact ⟨Nat.le_trans hf.bound_le (Nat.le_trans (Nat.le_of_lt γ.root_lt)
          (@Pairing.le_image γ.pairing _ hn)),
        Nat.le_trans hf.bound_le' (Nat.le_trans (Nat.le_of_lt γ.root'_lt) hn)⟩
  refine Agree.agreed ?_ (σ'.told_plain (.value (.node n))) γ.lead
  exact (Datum.told_agree_picture _ _).trans <|
    Agree.trans (Store.picture_agree_led (h.shared hf) (h.store.selector hf.selector hn)
      (fun m hm => hf.refers m (h.store.refers hn m hm)) le.1 le.2)
      (Datum.told_agree_picture σ'.views (.node n)).symm

/-! ### Generators that are run -/

theorem record (h : γ.Twins σ σ') (hf : γ.Fit closed) (event : LogEvent) {d d' : Datum}
    (ha : Agree (d.label σ.appearance) (d'.label σ'.appearance)) :
    (∃ e, e.Plain ∧ σ.record event d = .error e ∧ σ'.record event d' = .error e) ∨
      ∃ σ₁ σ₁', σ.record event d = .ok σ₁ ∧ σ'.record event d' = .ok σ₁' ∧
        γ.Onward σ σ' σ₁ σ₁' ∧ σ₁'.store = σ'.store := by
  rcases Session.record_agree (h.log hf) ha event event with
    ⟨e, hl, he, he'⟩ | ⟨log, log', hs, hs', hr, hr'⟩
  · exact .inl ⟨e, σ'.label_plain d' e hl, he, he'⟩
  · exact .inr ⟨_, _, hs, hs', ⟨.of_kept hr, .of_kept hr', h.store⟩, rfl⟩

/-- The same generator is run on two rule sets. -/
theorem launch (h : γ.Twins σ σ') {purpose purpose' : Purpose} {subject : Option NodeId}
    (hp : PurposeTwin γ σ σ' subjects purpose purpose' [subject]) {g g' : Datum}
    (hg : Datum.PassedTwin γ.bodies subjects.length σ σ' g g') (m m' : NodeId) :
    StartTwin γ closed subjects σ σ' (σ.launch purpose g m) (σ'.launch purpose' g' m') := by
  unfold Session.launch
  rcases hg.apply (.node m) (.node m') with ⟨e, hp, he, he'⟩ | ⟨body, hb, ha, ha'⟩
  · rw [he, he']
    exact .refuse_plain h.refl hp
  · rw [ha, ha']
    exact .enter h.refl hp hb

/-- The same generator is run on two rule sets after a record of their selectors. -/
theorem recorded (h : γ.Twins σ σ') (hf : γ.Fit closed) (event : LogEvent) {d d' : Datum}
    (hb : d.bare = (d'.led γ.lead).bare) (hr : ∀ m, .node m ∈ d'.identities →
      .node m ∈ (γ.right.store.get γ.root').selector.identities)
    {purpose purpose' : Purpose} {subject : Option NodeId}
    (hp : PurposeTwin γ σ σ' subjects purpose purpose' [subject]) {g g' : Datum}
    (hg : Datum.PassedTwin γ.bodies subjects.length σ σ' g g') (m m' : NodeId) :
    StartTwin γ closed subjects σ σ'
      (match σ.record event d with
        | .error e => .refuse σ e
        | .ok σ => σ.launch purpose g m)
      (match σ'.record event d' with
        | .error e => .refuse σ' e
        | .ok σ => σ.launch purpose' g' m') := by
  rcases h.record hf event (h.label_agree hf hb hr) with
    ⟨e, hp, he, he'⟩ | ⟨σ₁, σ₁', hs, hs', ho, hst⟩
  · rw [he, he']
    exact .refuse_plain h.refl hp
  · rw [hs, hs']
    refine .after ho ((h.onward ho).launch (hp.later ?_) (hg.lasts ho.left ho.right) m m')
    exact ⟨ho.left, ho.right, Nat.le_of_eq (congrArg Store.next hst.symm), fun _ _ => by rw [hst]⟩

/-- Two rule sets are emptied before they are reset, or neither is. A root is only emptied if it is
empty anyway. -/
theorem clearForReset (h : γ.Twins σ σ') (hf : γ.Fit closed) (hn : γ.pairing.Inner σ'.store n) :
    γ.pairing.Mirrors (σ.store.clearForReset (γ.pairing.image n)) (σ'.store.clearForReset n) := by
  obtain ⟨ho, ho'⟩ := h.store.optionsOf hn
  have hc : σ.store.clearsOnReset (γ.pairing.image n) = γ.right.store.clearsOnReset γ.root' := by
    unfold Store.clearsOnReset
    rw [ho]
    exact congrArg (fun o : OptionSet => o.clearOnReset.truthy) hf.options
  have hc' : σ'.store.clearsOnReset n = γ.right.store.clearsOnReset γ.root' := by
    unfold Store.clearsOnReset
    rw [ho']
    rfl
  unfold Store.clearForReset
  rw [hc, hc']
  split
  · rename_i hcl
    rcases hf.mode with ⟨ht, hch, hs⟩ | ⟨-, hopen⟩
    · rcases hn with rfl | ⟨hle, hlt⟩
      · have hb : γ.pairing.before γ.root' = γ.left.store.get γ.root := Pairing.before_root
        exact h.store.clear .root (hb ▸ ht) (hb ▸ hch) (hb ▸ hs)
      · have hb : γ.pairing.before n = default := Pairing.before_of_le hle
        exact h.store.clear (.inr ⟨hle, hlt⟩) (by rw [hb]; rfl) (by rw [hb]; rfl) (by rw [hb]; rfl)
    · rw [hopen] at hcl
      cases hcl
  · exact h.store

/-- Two rule sets are reset, one of which stands for the other. -/
theorem reset (h : γ.Twins σ σ') (hf : γ.Fit closed) (hn : γ.pairing.Inner σ'.store n)
    (hm : some n ∈ subjects) {g g' : Datum}
    (hg : Datum.PassedTwin γ.bodies subjects.length σ σ' g g') :
    StartTwin γ closed subjects σ σ' (σ.reset (γ.pairing.image n) none .node g)
      (σ'.reset n none .node g') := by
  unfold Session.reset
  rw [hg.callable]
  split
  · have clear := h.clearForReset hf hn
    have ho := h.of_store clear
    have hnext : (σ'.store.clearForReset n).next = σ'.store.next := by
      unfold Store.clearForReset
      split
      · exact Store.next_clear ..
      · rfl
    have hn' := hn.of_le (t := σ'.store.clearForReset n) (Nat.le_of_eq hnext.symm)
    exact .after ho ((h.onward ho).recorded hf .resetting (clear.selector hf.selector hn')
      (clear.refers hn') (.reset hm) (hg.lasts ho.left ho.right) _ _)
  · exact .refuse_plain h.refl nofun

/-- A rule set is made under each of two, one of which stands for the other, and filled. -/
theorem fillNew (h : γ.Twins σ σ') (hf : γ.Fit closed) (hn : γ.pairing.Inner σ'.store n)
    (hm : some n ∈ subjects) {d d' : Datum} (hb : d.bare = (d'.led γ.lead).bare)
    (ht : (γ.right.store.get γ.root').selector.isText = true → d'.isText = true)
    (hr : ∀ m, .node m ∈ d'.identities →
      .node m ∈ (γ.right.store.get γ.root').selector.identities)
    {fragment fragment' : Datum} (ha : fragment.Alike fragment') (className className' : Option Datum)
    {g g' : Datum} (hg : Datum.PassedTwin γ.bodies subjects.length σ σ' g g') :
    StartTwin γ closed subjects σ σ'
      (σ.fill (σ.store.sprout (γ.pairing.image n) d none) σ.store.next
        (.select σ.store.next fragment className) g)
      (σ'.fill (σ'.store.sprout n d' none) σ'.store.next
        (.select σ'.store.next fragment' className') g') := by
  have hs := h.store.sprout hn hb ht hr
  have ho := h.of_store hs
  have hnew : ((σ.store.sprout (γ.pairing.image n) d none).get σ.store.next).selector = d := by
    rw [Store.get_sprout, if_pos rfl]
    rfl
  have hnew' : (σ'.store.sprout n d' none).get σ'.store.next =
      .fresh d' (some n) none (σ'.store.get n).options := by
    rw [Store.get_sprout, if_pos rfl, Option.filter_some, if_pos]
    simpa using h.store.lt_next hn
  have hp : PurposeTwin γ { σ with store := σ.store.sprout (γ.pairing.image n) d none }
      { σ' with store := σ'.store.sprout n d' none } subjects
      (.select σ.store.next fragment className) (.select σ'.store.next fragment' className')
      [some σ'.store.next] := by
    rw [← h.store.image_next]
    refine .select className className' h.store.grown ?_ (congrArg RuleSet.parent hnew') hm ha
    show σ'.store.next < (σ'.store.sprout n d' none).next
    rw [Store.next_sprout]
    exact Nat.lt_succ_self _
  have hb' : ((σ.store.sprout (γ.pairing.image n) d none).get σ.store.next).selector.bare =
      (((σ'.store.sprout n d' none).get σ'.store.next).selector.led γ.lead).bare := by
    rw [hnew, hnew']
    exact hb
  have hsel : ((σ'.store.sprout n d' none).get σ'.store.next).selector = d' :=
    congrArg RuleSet.selector hnew'
  exact .after ho ((h.onward ho).recorded hf .generating hb' (fun m hm => hr m (hsel ▸ hm)) hp
    (hg.lasts ho.left ho.right) _ _)

/-! ### Selections -/

theorem selectFrom (h : γ.Twins σ σ') (hf : γ.Fit closed) (hn : γ.pairing.Inner σ'.store n)
    (hm : some n ∈ subjects) {fragment fragment' : Datum} (ha : fragment.Alike fragment')
    (className className' : Option Datum) {g g' : Option Datum}
    (hg : Option.Rel (Datum.PassedTwin γ.bodies subjects.length σ σ') g g') :
    StartTwin γ closed subjects σ σ' (σ.selectFrom (γ.pairing.image n) className fragment g)
      (σ'.selectFrom n className' fragment' g') := by
  have back : StartTwin γ closed subjects σ σ' (.answer σ (.ok (.value fragment)))
      (.answer σ' (.ok (.value fragment'))) :=
    .done h.refl ((ha.told (by rfl)).agreed (σ'.told_plain (.value fragment')) γ.lead)
  cases hg with
  | none => exact back
  | @some g g' hg =>
    unfold Session.selectFrom
    simp only
    rw [hg.alike.isNull]
    split
    · exact back
    · have hb := h.store.selector hf.selector hn
      rcases Datum.plus_cases σ.stamps σ'.stamps hb ha.bare with
        ⟨e, hp, he, he'⟩ | ⟨d, d', hd, hd', hbare⟩
      · rw [he, he']
        exact .refuse_plain h.refl hp
      · rw [hd, hd']
        simp only
        rw [hg.callable]
        split
        · have ho : γ.Onward σ σ' { σ with stamps := σ.stamps + 1 }
              { σ' with stamps := σ'.stamps + 1 } :=
            ⟨.of_kept rfl, .of_kept rfl, h.store⟩
          have text (ht : (γ.right.store.get γ.root').selector.isText = true) :
              d'.isText = true := by
            obtain ⟨t, ht⟩ := Datum.exists_of_isText (h.store.isText hn ht)
            rw [ht] at hd'
            obtain ⟨u, -, rfl⟩ := Datum.exists_text_of_plus hd'
            rfl
          refine .after ho ((h.onward ho).fillNew hf hn hm hbare text (fun m hm => ?_) ha className
            className' (hg.lasts ho.left ho.right))
          rcases Datum.mem_of_plus hd' hm with hm | hm
          · exact h.store.refers hn m hm
          · exact absurd rfl (ha.symm.detached _ hm m).2
        · exact .refuse_plain h.refl nofun

theorem selectBy (h : γ.Twins σ σ') (hf : γ.Fit closed) (hn : γ.pairing.Inner σ'.store n)
    (hm : some n ∈ subjects) (method : Method) {argument argument' : Datum}
    (ha : argument.Alike argument') {g g' : Option Datum}
    (hg : Option.Rel (Datum.PassedTwin γ.bodies subjects.length σ σ') g g') :
    StartTwin γ closed subjects σ σ' (σ.selectBy (γ.pairing.image n) method argument g)
      (σ'.selectBy n method argument' g') := by
  unfold Session.selectBy
  rcases ha.fragmentOf method σ.appearance σ'.appearance with
    ⟨e, he, he'⟩ | ⟨r, r', hr, hr', ha⟩
  · have hp := ha.fragmentOf_plain method σ'.appearance e he'
    rw [he, he']
    exact .refuse_plain h.refl hp
  · rw [hr, hr']
    exact h.selectFrom hf hn hm ha none none hg

/-- The class names need only be spelled alike. -/
theorem selectNamed (h : γ.Twins σ σ') (hf : γ.Fit closed) (hn : γ.pairing.Inner σ'.store n)
    (hm : some n ∈ subjects) {className className' : Datum}
    (hc : className.spelled σ.appearance = className'.spelled σ'.appearance)
    (hp : Plain (className'.spelled σ'.appearance)) {g g' : Option Datum}
    (hg : Option.Rel (Datum.PassedTwin γ.bodies subjects.length σ σ') g g') :
    StartTwin γ closed subjects σ σ' (σ.selectNamed (γ.pairing.image n) className g)
      (σ'.selectNamed n className' g') := by
  unfold Session.selectNamed Method.fragmentOf
  simp only
  rw [hc]
  cases hs : className'.spelled σ'.appearance with
  | error e => exact .refuse_plain h.refl (hp e hs)
  | ok text => exact h.selectFrom hf hn hm (.of_text _) _ _ hg

/-- What a host that is called comes to: no rule set is passed to it. -/
theorem applyHost (h : γ.Twins σ σ') {id : HostId} (hid : σ.hosts[id]? = σ'.hosts[id]?)
    {kind kind' : Datum} (hk : Datum.PassedTwin γ.bodies subjects.length σ σ' kind kind') :
    AppliedTwin γ subjects.length σ σ' (σ.apply (.host id) kind) (σ'.apply (.host id) kind') := by
  have hkind : σ.hostKind id = σ'.hostKind id := by
    unfold Session.hostKind
    rw [hid]
  unfold Session.apply
  simp only
  rw [hkind]
  split
  · split
    · exact absurd rfl (hk.ne_node.1 _)
    · split
      · exact absurd rfl (hk.ne_node.2 _)
      · exact .fails nofun
  · refine .gives h.refl rfl ?_ (.ok _)
    show Except.ok _ = Except.ok _
    unfold Session.appearance Store.appearance Session.hostName
    simp only
    rw [hid]
  · exact .fails nofun

/-- What a naming rule comes to: it only looks at the name of the kind. -/
theorem applyRule (h : γ.Twins σ σ') {rule : Naming} (stamp : Stamp) {kind kind' : Datum}
    (hk : Datum.PassedTwin γ.bodies subjects.length σ σ' kind kind') :
    AppliedTwin γ subjects.length σ σ' (σ.apply (.naming rule stamp) kind)
      (σ'.apply (.naming rule stamp) kind') := by
  unfold Session.apply
  simp only
  rw [hk.kindName?]
  cases rule with
  | constant value =>
    unfold Session.className
    simp only
    by_cases hl : value.literal = true
    · rw [if_pos hl]
      rcases Session.eval_literal hl σ σ' with
        ⟨e, he, he'⟩ | ⟨d, d', k, k', hd, hd', ha, -, -⟩
      · have hp := Session.eval_plain value σ e he
        rw [he, he']
        exact .fails hp
      · rw [hd, hd']
        exact .gives ⟨.of_kept rfl, .of_kept rfl, h.store⟩ rfl
          (ha.eq_of Datum.spelled_bare _ _) (ha.spelled_plain _)
    · rw [if_neg hl]
      exact .fails nofun
  | failing message => exact .fails nofun
  | own | lowered | prefixed =>
    cases σ'.kindName? kind' with
    | none => exact .fails nofun
    | some name => exact .gives h.refl rfl rfl (.ok _)

/-- What the naming option comes to for a kind that was passed to both. -/
theorem applyNaming (h : γ.Twins σ σ') (hf : γ.Fit closed)
    (hm : γ.right.MayName γ.bodies γ.className subjects.length) {kind kind' : Datum}
    (hk : Datum.PassedTwin γ.bodies subjects.length σ σ' kind kind') :
    AppliedTwin γ subjects.length σ σ' (σ.apply γ.className kind)
      (σ'.apply γ.className kind') := by
  have hnaming := hf.naming
  have hhost := hf.host
  generalize γ.className = callee at hm hnaming hhost
  cases callee with
  | generator g =>
    obtain ⟨hk, hb⟩ := hm
    obtain ⟨hk', hsame⟩ := hnaming g rfl hk
    unfold Session.apply
    simp only
    rw [h.left.bodyOf hk', hsame, h.right.bodyOf hk]
    exact .runs hb
  | host id =>
    exact h.applyHost (by rw [h.left.hosts, h.right.hosts, hhost id rfl]) hk
  | naming rule stamp => exact h.applyRule stamp hk
  | _ => exact .fails nofun

theorem selectKind (h : γ.Twins σ σ') (hf : γ.Fit closed) (hn : γ.pairing.Inner σ'.store n)
    (hm : some n ∈ subjects) (hc : γ.right.MayName γ.bodies γ.className subjects.length)
    {kind kind' : Datum} (hk : Datum.PassedTwin γ.bodies subjects.length σ σ' kind kind')
    {g g' : Option Datum}
    (hg : Option.Rel (Datum.PassedTwin γ.bodies subjects.length σ σ') g g') :
    StartTwin γ closed subjects σ σ' (σ.selectKind (γ.pairing.image n) kind g)
      (σ'.selectKind n kind' g') := by
  obtain ⟨ho, ho'⟩ := h.store.optionsOf hn
  have hl : (σ.store.optionsOf (γ.pairing.image n)).className = γ.className := by
    rw [ho]
    exact congrArg OptionSet.className hf.options
  have hr : (σ'.store.optionsOf n).className = γ.className := congrArg OptionSet.className ho'
  unfold Session.selectKind
  simp only [hl, hr]
  generalize hx : σ.apply γ.className kind = x
  generalize hx' : σ'.apply γ.className kind' = x'
  have ha := h.applyNaming hf hc hk
  rw [hx, hx'] at ha
  cases ha with
  | fails plain => exact .refuse_plain h.refl plain
  | gives ho hs hsp plain =>
    refine .after ho ((h.onward ho).selectNamed hf (hs ▸ hn) hm hsp plain ?_)
    cases hg with
    | none => exact .none
    | some hg => exact .some (hg.lasts ho.left ho.right)
  | runs hb => exact .enter h.refl (.name _ _ hm hk.ne_node.1 hk.ne_node.2 hg) hb

theorem callMethod (h : γ.Twins σ σ') (hf : γ.Fit closed) (hn : γ.pairing.Inner σ'.store n)
    (hm : some n ∈ subjects) (name : String) (hc : Method.ofName? name = some .kind →
      γ.right.MayName γ.bodies γ.className subjects.length) {argument argument' g g' : Option Datum}
    (ha : Option.Rel (Datum.PassedTwin γ.bodies subjects.length σ σ') argument argument')
    (hg : Option.Rel (Datum.PassedTwin γ.bodies subjects.length σ σ') g g') :
    StartTwin γ closed subjects σ σ' (σ.callMethod (γ.pairing.image n) name argument g)
      (σ'.callMethod n name argument' g') := by
  unfold Session.callMethod Method.named
  cases hname : Method.ofName? name with
  | none => exact .refuse_plain h.refl nofun
  | some method =>
    simp only
    rcases method.bind_rel ha hg with ⟨e, he, he'⟩ | ⟨a, a', b, b', hb, hb', ha, hg⟩
    · have hp := method.bind_plain argument' g' e he'
      rw [he, he']
      exact .refuse_plain h.refl hp
    · rw [hb, hb']
      simp only
      have hd : Datum.PassedTwin γ.bodies subjects.length σ σ' (a.getD .null) (a'.getD .null) := by
        cases ha with
        | none => exact .literal ⟨⟨rfl, nofun⟩, rfl, rfl⟩
        | some ha => exact ha
      split
      · rename_i hkind
        exact h.selectKind hf hn hm (hc (hkind ▸ hname)) hd hg
      · exact h.selectBy hf hn hm method hd.alike hg

/-! ### What is put into rule sets -/

/-- Changes of the stores that fail alike, or lead to stores that mirror each other. -/
def Changed (γ : Ground) (x x' : Except Error Store) : Prop :=
  (∃ e, x = .error (e.led γ.lead) ∧ x' = .error e) ∨
    ∃ s s', x = .ok s ∧ x' = .ok s' ∧ γ.pairing.Mirrors s s'

theorem Changed.of_plain {e : Error} (he : e.Plain) : Changed γ (.error e) (.error e) :=
  .inl ⟨e, congrArg Except.error (Error.led_of_plain he γ.lead).symm, rfl⟩

/-- The same is written on two rule sets, one of which stands for the other. -/
theorem write (h : γ.Twins σ σ') (hf : γ.Fit closed) (hn : γ.pairing.Inner σ'.store n)
    {d d' : Datum} (hd : d.Alike d') :
    Changed γ (σ.store.write (γ.pairing.image n) d) (σ'.store.write n d') := by
  have hb := h.store.selector hf.selector hn
  by_cases ht : ∃ t, (σ'.store.get n).selector = .text t
  · unfold Store.write
    obtain ⟨t, ht⟩ := ht
    have ht' : (σ.store.get (γ.pairing.image n)).selector = .text (γ.lead ++ t) := by
      rw [ht] at hb
      exact Datum.eq_text_of_bare hb
    rw [ht, ht']
    by_cases hu : ∃ u, d' = .text u
    · obtain ⟨u, rfl⟩ := hu
      cases Datum.eq_text_of_bare hd.bare
      simp only
      rw [γ.leading t]
      split
      · exact .inl ⟨.incompleteSelector t, rfl, rfl⟩
      · exact .inr ⟨_, _, rfl, rfl, h.store.append hn ht u⟩
    · have hu' (u : String) : d' ≠ .text u := fun e => hu ⟨u, e⟩
      have hu (u : String) : d ≠ .text u := by
        rintro rfl
        exact hu' u (Datum.eq_text_of_bare hd.bare.symm)
      simp only
      rw [γ.leading t]
      split
      · exact .inl ⟨.incompleteSelector t, rfl, rfl⟩
      · exact .of_plain nofun
  · have ht' (t : String) : (σ'.store.get n).selector ≠ .text t := fun e => ht ⟨t, e⟩
    have ht (t : String) : (σ.store.get (γ.pairing.image n)).selector ≠ .text t := by
      intro e
      rw [e, Datum.led_of_not_text ht'] at hb
      exact ht' t (Datum.eq_text_of_bare hb.symm)
    rw [Store.write_of_not_text ht d, Store.write_of_not_text ht' d']
    exact .of_plain nofun

theorem changeStore (h : γ.Twins σ σ') {x x' : Except Error Store} {f f' : Store → Result}
    (hx : Changed γ x x')
    (hf : ∀ s s' views views', ∃ a b, (f s).told views = .ok a ∧ (f' s').told views' = .ok b) :
    StartTwin γ closed subjects σ σ' (σ.changeStore x f) (σ'.changeStore x' f') := by
  rcases hx with ⟨e, rfl, rfl⟩ | ⟨s, s', rfl, rfl, hs⟩
  · exact .refuse h.refl e
  · refine .done (h.of_store hs) ?_
    obtain ⟨a, b, ha, hb⟩ := hf s s' ({ σ with store := s } : Session).views
      ({ σ' with store := s' } : Session).views
    show Agreed γ.lead ((f s).told _) ((f' s').told _)
    rw [ha, hb]
    exact .ok a b

/-- A statement acts on rule sets one of which stands for the other, or on none. -/
theorem onNode (h : γ.Twins σ σ') (hc : Frames γ σ σ' subjects σ.calls σ'.calls) {up : Nat}
    (hu : up < subjects.length) {act act' : NodeId → Start}
    (ha : ∀ n, some n ∈ subjects → γ.pairing.Inner σ'.store n →
      StartTwin γ closed subjects σ σ' (act (γ.pairing.image n)) (act' n)) :
    StartTwin γ closed subjects σ σ' (σ.onNode (.enclosing up) act)
      (σ'.onNode (.enclosing up) act') := by
  have ht := hc.target hu
  have hm := List.getElem_mem hu
  generalize subjects[up] = subject at ht hm
  unfold Session.onNode
  cases subject with
  | some n =>
    rw [ht.1, ht.2]
    exact ha n hm (hc.inner_of_mem hm)
  | none =>
    split
    · rename_i e
      exact absurd e (ht.1 _)
    · split
      · rename_i e
        exact absurd e (ht.2 _)
      · exact .refuse_plain h.refl nofun

/-! ### Statements -/

/-- A contained statement begins alike. -/
theorem begin (h : γ.Twins σ σ') (hf : γ.Fit closed)
    (hc : Frames γ σ σ' subjects σ.calls σ'.calls) (hs : Shut γ closed σ σ')
    {action action' : Action Datum (List Stmt)}
    (ha : ActionTwin γ.bodies (γ.right.MayName γ.bodies γ.className) subjects.length σ σ' action
      action') :
    StartTwin γ closed subjects σ σ' (σ.begin action) (σ'.begin action') := by
  cases ha with
  | select up method lt kind arguments generators =>
    exact h.onNode hc lt fun n hm hn => h.callMethod hf hn hm method kind arguments generators
  | write up lt alike =>
    exact h.onNode hc lt fun n _ hn =>
      h.changeStore (h.write hf hn alike) fun _ _ _ _ => ⟨_, _, rfl, rfl⟩
  | @assign up p p' k k' lt alike keywords_alike =>
    refine h.onNode hc lt fun n _ hn => h.changeStore ?_ fun _ _ _ _ => ⟨_, _, rfl, rfl⟩
    have hp : (p.getD .null).Alike (p'.getD .null) := by
      cases alike with
      | none => exact ⟨rfl, nofun⟩
      | some h => exact h
    unfold Store.assign
    have hplain : Plain (declarationsOf σ'.appearance (some (p'.getD .null)) (.ofList k')) := by
      rw [← Datum.declarationsOf_alike hp keywords_alike .plain σ'.appearance]
      exact declarationsOf_plain _ _
    rw [Datum.declarationsOf_alike hp keywords_alike σ.appearance σ'.appearance]
    cases hd : declarationsOf σ'.appearance (some (p'.getD .null)) (.ofList k') with
    | error e => exact .of_plain (hplain e hd)
    | ok lines => exact h.write hf hn (.of_text lines)
  | @define up name value value' lt alike =>
    refine h.onNode hc lt fun n _ hn => h.changeStore ?_ fun _ _ _ _ => ⟨_, _, rfl, rfl⟩
    unfold Store.define
    rw [alike.eq_of Datum.propertyValue_bare σ.appearance σ'.appearance]
    cases hv : propertyValue σ'.appearance value' with
    | error e => exact .of_plain (alike.propertyValue_plain _ e hv)
    | ok text => exact .inr ⟨_, _, rfl, rfl, h.store.define hn name text⟩
  | check up name lt => exact h.onNode hc lt fun n _ _ => .done h.refl (.ok _ _)
  | var up name lt =>
    refine h.onNode hc lt fun n hm _ => ?_
    obtain ⟨h₁, h₂⟩ := h.sees hf hc hs name hm
    unfold Session.reference
    cases hv : σ'.sees n name with
    | true =>
      rw [h₁ hv]
      exact .done h.refl (.ok _ _)
    | false =>
      -- a name that is not visible in the second session may still be so in the first one
      by_cases hcl : closed
      · rw [h₂ hcl, hv]
        exact .refuse_plain h.refl nofun
      · exact .fails _ _ _ hcl
  | reset up lt passed => exact h.onNode hc lt fun n hm hn => h.reset hf hn hm passed
  | attempt body contained => exact .enter h.refl .attempt contained

/-- A statement whose body has ended goes on alike. -/
theorem finish (h : γ.Twins σ σ') (hf : γ.Fit closed)
    (hi : ∀ n, some n ∈ subjects → γ.pairing.Inner σ'.store n) {purpose purpose' : Purpose}
    {pushed : List (Option NodeId)} (hp : PurposeTwin γ σ σ' subjects purpose purpose' pushed) :
    StartTwin γ closed subjects σ σ' (σ.finish purpose) (σ'.finish purpose') := by
  cases hp with
  | select className className' le lt parent mem alike =>
    exact .done (h.of_store (h.store.attach le lt))
      ((alike.told (by rfl)).agreed (Session.told_plain _ (.value _)) γ.lead)
  | reset mem => exact .done h.refl (h.told_agree hf (hi _ mem))
  | name callee callee' mem other other' passed =>
    have spelled : Datum.null.spelled σ.appearance = Datum.null.spelled σ'.appearance := rfl
    exact h.selectNamed hf (hi _ mem) mem spelled (.ok _) passed
  | attempt => exact .done h.refl (.ok _ _)

end Twins

end Ground

end RuleTree
