import RuleTree.Proofs.Calls.Amends
import RuleTree.Proofs.History.Lineage

/-!
# What is announced

A statement that does not fail at once makes no rule set but the one that it is going to fill, and
announces it in the log.

* `Event.selected?`, `Event.announced?`: the rule set that an event makes by a selection, and the
  selector of the one that it makes;
* `LogRecord.Announces`, `announcements`: a record that announces a rule set, and the records that
  do among others;
* `Session.Logs`: a session whose log goes on with the announcements of some selectors;
* `Start.Makes`: a start that announces, and is going to fill, what its events make;
* one lemma for each operation, from running a generator to ending a body;
* `Session.announces_begin`, `Session.announces_finish`: every statement that does not fail at once
  is such a start, and so is whatever comes after its body.
-/

namespace RuleTree

/-- The rule set that an event makes by a selection. -/
def Event.selected? : Event → Option NodeId
  | sprouted n _ _ _ (some _) => some n
  | _ => none

/-- The selector of the rule set that an event makes. -/
def Event.announced? : Event → Option Datum
  | planted _ selector _ _ => some selector
  | sprouted _ _ selector _ _ => some selector
  | _ => none

/-- Making no rule sets. -/
def AllIdle (events : List Event) : Prop := ∀ e ∈ events, e.made? = none

namespace AllIdle

variable {events : List Event}

theorem nil : AllIdle [] := nofun

theorem single {e : Event} (h : e.made? = none) : AllIdle [e] := by
  intro e' he
  rw [List.mem_singleton.1 he, h]

theorem made (h : AllIdle events) : events.filterMap Event.made? = [] :=
  List.filterMap_eq_nil_iff.2 h

theorem selected (h : AllIdle events) : events.filterMap Event.selected? = [] := by
  refine List.filterMap_eq_nil_iff.2 fun e he => ?_
  have hm := h e he
  cases e with
  | sprouted => cases hm
  | _ => rfl

theorem announced (h : AllIdle events) : events.filterMap Event.announced? = [] := by
  refine List.filterMap_eq_nil_iff.2 fun e he => ?_
  have hm := h e he
  cases e with
  | planted | sprouted => cases hm
  | _ => rfl

end AllIdle

/-! ### The log -/

/-- Announcing a rule set with a given selector, shown as it looked at some time. -/
structure LogRecord.Announces (selector : Datum) (r : LogRecord) : Prop where
  event : r.event = .generating
  subject : r.subject = selector
  label : ∃ look, selector.label look = .ok r.label

/-- The records that announce rule sets. -/
def announcements (records : Array LogRecord) : List LogRecord :=
  records.toList.filter fun r => r.event = .generating

theorem announcements_append (xs ys : Array LogRecord) :
    announcements (xs ++ ys) = announcements xs ++ announcements ys := by
  unfold announcements
  rw [Array.toList_append, List.filter_append]

/-- Going on with the announcements of some selectors in the log, if there is one, and maybe with
other records. -/
def Session.Logs (σ : Session) (selectors : List Datum) (σ' : Session) : Prop :=
  ∀ records, σ.log = some records → ∃ added, σ'.log = some (records ++ added) ∧
    List.Forall₂ LogRecord.Announces selectors (announcements added)

namespace Session.Logs

variable {σ σ₁ σ₂ : Session} {ds es : List Datum}

theorem of_log (h : σ₁.log = σ.log) : σ.Logs [] σ₁ :=
  fun records hr => ⟨#[], by rw [h, hr, Array.append_empty], .nil⟩

theorem refl (σ : Session) : σ.Logs [] σ := .of_log rfl

theorem congr (hl : σ₁.log = σ.log) (h : σ₁.Logs ds σ₂) : σ.Logs ds σ₂ :=
  fun records hr => h records (hl.trans hr)

theorem trans (h : σ.Logs ds σ₁) (h' : σ₁.Logs es σ₂) : σ.Logs (ds ++ es) σ₂ := by
  intro records hr
  obtain ⟨xs, hx, hds⟩ := h records hr
  obtain ⟨ys, hy, hes⟩ := h' _ hx
  refine ⟨xs ++ ys, by rw [hy, Array.append_assoc], ?_⟩
  rw [announcements_append]
  exact List.rel_append hds hes

/-- Whatever is recorded besides is no announcement. -/
theorem of_record {event : LogEvent} {d : Datum} (h : σ.record event d = .ok σ₁)
    (he : event ≠ .generating) : σ.Logs [] σ₁ := by
  intro records hr
  unfold record at h
  rw [hr] at h
  cases hl : d.label σ.appearance with
  | error e =>
    simp only [hl] at h
    cases h
  | ok label =>
    simp only [hl] at h
    cases h
    refine ⟨#[⟨event, d, label⟩], by rw [Array.append_singleton], ?_⟩
    have hn : announcements #[⟨event, d, label⟩] = [] := by simp [announcements, he]
    rw [hn]
    exact .nil

/-- A rule set that is going to be filled is announced. -/
theorem of_generating {d : Datum} (h : σ.record .generating d = .ok σ₁) : σ.Logs [d] σ₁ := by
  intro records hr
  unfold record at h
  rw [hr] at h
  cases hl : d.label σ.appearance with
  | error e =>
    simp only [hl] at h
    cases h
  | ok label =>
    simp only [hl] at h
    cases h
    exact ⟨#[⟨.generating, d, label⟩], by rw [Array.append_singleton],
      .cons ⟨rfl, rfl, _, hl⟩ .nil⟩

end Session.Logs

/-! ### Starts -/

namespace Start

/-- The rule set that is going to be filled for the first time. -/
def made? : Start → Option NodeId
  | done _ _ => none
  | enter _ purpose _ => purpose.made?

/-- Not failing at once. -/
def Succeeds (st : Start) : Prop := ∀ e, st.result? ≠ some (.error e)

/-- Announcing the rule set that some events make, which is the one that is going to be filled, after
a selection if it was selected. -/
structure Makes (σ : Session) (events : List Event) (st : Start) : Prop where
  made : events.filterMap Event.made? = st.made?.toList
  selected : events.filterMap Event.selected? = st.pending?.toList
  logs : σ.Logs (events.filterMap Event.announced?) st.session

/-- Making what certain events make, unless it fails at once. -/
structure Announces (σ : Session) (events : List Event) (st : Start) : Prop where
  makes : st.Succeeds → st.Makes σ events

namespace Announces

variable {σ σ₁ : Session} {events before : List Event} {st : Start}

theorem refuse (σ σ₁ : Session) (events : List Event) (e : Error) :
    (Start.refuse σ₁ e).Announces σ events := ⟨fun h => absurd rfl (h e)⟩

/-- A start that makes nothing and logs nothing announces events that make nothing. -/
theorem still (h : σ.Logs [] st.session) (hm : st.made? = none) (hp : st.pending? = none)
    (hi : AllIdle events) : st.Announces σ events := by
  refine ⟨fun _ => ⟨?_, ?_, ?_⟩⟩
  · rw [hi.made, hm]
    rfl
  · rw [hi.selected, hp]
    rfl
  · rwa [hi.announced]

theorem done (h : σ₁.log = σ.log) (hi : AllIdle events) (r : Except Error Result) :
    (Start.done σ₁ r).Announces σ events := .still (.of_log h) rfl rfl hi

theorem answer (σ : Session) (r : Except Error Result) : (Start.answer σ r).Announces σ [] :=
  .done rfl .nil r

theorem congr (hl : σ₁.log = σ.log) (h : st.Announces σ₁ events) : st.Announces σ events := by
  refine ⟨fun hs => ?_⟩
  obtain ⟨hm, hp, hl'⟩ := h.makes hs
  exact ⟨hm, hp, .congr hl hl'⟩

/-- What a start announces it announces also after events that make nothing and are not logged. -/
theorem after (h : σ.Logs [] σ₁) (hi : AllIdle before) (h' : st.Announces σ₁ events) :
    st.Announces σ (before ++ events) := by
  refine ⟨fun hs => ?_⟩
  obtain ⟨hm, hp, hl⟩ := h'.makes hs
  refine ⟨?_, ?_, ?_⟩
  · rw [List.filterMap_append, hi.made, hm]
    rfl
  · rw [List.filterMap_append, hi.selected, hp]
    rfl
  · rw [List.filterMap_append, hi.announced]
    exact h.trans hl

end Announces

end Start

namespace Session

variable {σ σ' : Session}

/-! ### Generators -/

theorem log_of_gives {callee subject d : Datum} (h : σ.apply callee subject = .gives σ' d) :
    σ'.log = σ.log := by
  unfold apply at h
  split at h
  · cases h
  · split at h
    · split at h
      · split at h
        · cases h
          rfl
        · cases h
      · cases h
    · cases h
      rfl
    · cases h
  · split at h
    · rename_i hc
      cases h
      exact (keeps_className _ _).log hc
    · cases h
  · cases h
  · cases h

theorem idle_callDeeds (σ : Session) (callee subject : Datum) :
    AllIdle (σ.callDeeds callee subject) := by
  unfold callDeeds
  split
  · split
    · exact .single rfl
    · exact .nil
  · exact .nil

/-- A generator that does not fail at once is run for its purpose, and nothing is recorded. -/
theorem enters_launch {purpose : Purpose} {generator : Datum} {n : NodeId}
    (h : (σ.launch purpose generator n).Succeeds) :
    ∃ σ' body, σ.launch purpose generator n = .enter σ' purpose body ∧ σ'.log = σ.log := by
  unfold launch at h ⊢
  split at h
  · rename_i hg
    exact ⟨_, _, rfl, log_of_gives hg⟩
  · exact absurd rfl (h _)
  · exact ⟨_, _, rfl, rfl⟩

/-- If a generator can be run, then nothing is announced, and what is going to be filled is what the
purpose says. -/
theorem makes_launch {purpose : Purpose} {generator : Datum} {n : NodeId}
    (h : (σ.launch purpose generator n).Succeeds) :
    σ.Logs [] (σ.launch purpose generator n).session ∧
      (σ.launch purpose generator n).made? = purpose.made? ∧
      (σ.launch purpose generator n).pending? = purpose.pending? := by
  obtain ⟨σ', body, he, hl⟩ := enters_launch h
  rw [he]
  exact ⟨.of_log hl, rfl, rfl⟩

/-- A rule set that was just made is announced. -/
theorem announces_fill (σ : Session) {store : Store} {made : Event} {n : NodeId} (purpose : Purpose)
    (hm : made.made? = some n) (hd : made.announced? = some (store.get n).selector)
    (hp : purpose.made? = some n) (hs : made.selected? = purpose.pending?) (generator : Datum) :
    (σ.fill store n purpose generator).Announces σ (σ.fillDeeds made store n generator) := by
  unfold fill fillDeeds
  simp only
  cases hr : { σ with store }.record .generating (store.get n).selector with
  | error e => exact .refuse σ _ _ e
  | ok σ₁ =>
    refine ⟨fun hsuc => ?_⟩
    obtain ⟨hl, hm', hp'⟩ := makes_launch hsuc
    have hi := σ₁.idle_callDeeds generator (.node n)
    refine ⟨?_, ?_, ?_⟩
    · rw [List.filterMap_cons_some hm, hi.made, hm', hp]
      rfl
    · rw [hp', ← hs]
      cases hsel : made.selected? with
      | none => rw [List.filterMap_cons_none hsel, hi.selected]; rfl
      | some c => rw [List.filterMap_cons_some hsel, hi.selected]; rfl
    · rw [List.filterMap_cons_some hd, hi.announced]
      exact (Logs.congr (by rfl) (.of_generating hr)).trans hl

theorem announces_reset (σ : Session) (n : NodeId) (registry : Option RegistryId) (output : Output)
    (generator : Datum) :
    (σ.reset n registry output generator).Announces σ (σ.resetDeeds n generator) := by
  unfold reset resetDeeds
  split
  · simp only
    have hc : AllIdle (if σ.store.clearsOnReset n then [.cleared n] else []) := by
      split
      · exact .single rfl
      · exact .nil
    cases hr : { σ with store := σ.store.clearForReset n }.record .resetting
        ((σ.store.clearForReset n).get n).selector with
    | error e => exact .refuse σ _ _ e
    | ok σ₁ =>
      refine .after (.congr (by rfl) (.of_record hr (by decide))) hc ⟨fun hs => ?_⟩
      obtain ⟨hl', hm, hp⟩ := makes_launch hs
      exact (Start.Announces.still hl' hm hp (σ₁.idle_callDeeds _ _)).makes hs
  · exact .refuse σ _ _ _

/-! ### Selections -/

theorem announces_selectFrom (σ : Session) (n : NodeId) (className : Option Datum)
    (fragment : Datum) (generator : Option Datum) :
    (σ.selectFrom n className fragment generator).Announces σ
      (σ.selectDeeds n fragment generator) := by
  unfold selectFrom selectDeeds
  cases generator with
  | none => exact .answer σ _
  | some generator =>
    simp only
    split
    · exact .answer σ _
    · cases (σ.store.get n).selector.plus σ.stamps fragment with
      | error e => exact .refuse σ _ _ e
      | ok selector =>
        simp only
        split
        · have hd : (.sprouted σ.store.next n selector none (some fragment) : Event).announced? =
              some ((σ.store.sprout n selector none).get σ.store.next).selector := by
            rw [Store.get_sprout, if_pos rfl]
            rfl
          let σ₁ : Session := { σ with stamps := σ.stamps + 1 }
          let purpose : Purpose := .select σ.store.next fragment className
          exact .congr (by rfl) (σ₁.announces_fill purpose rfl hd rfl rfl generator)
        · exact .refuse σ _ _ _

theorem announces_selectNamed (σ : Session) (n : NodeId) (className : Datum)
    (generator : Option Datum) :
    (σ.selectNamed n className generator).Announces σ (σ.namedDeeds n className generator) := by
  unfold selectNamed namedDeeds
  cases Method.kind.fragmentOf σ.appearance className with
  | error e => exact .refuse σ _ _ e
  | ok fragment => exact announces_selectFrom ..

theorem announces_selectKind (σ : Session) (n : NodeId) (kind : Datum)
    (generator : Option Datum) :
    (σ.selectKind n kind generator).Announces σ (σ.kindDeeds n kind generator) := by
  unfold selectKind kindDeeds
  simp only
  cases hg : σ.apply (σ.store.optionsOf n).className kind with
  | gives σ₁ className =>
    exact .after (.of_log (log_of_gives hg)) (σ.idle_callDeeds _ _) (announces_selectNamed ..)
  | fails e => exact .refuse σ _ _ e
  | runs body => exact .still (.refl σ) rfl rfl .nil

theorem announces_callMethod (σ : Session) (n : NodeId) (name : String)
    (argument generator : Option Datum) :
    (σ.callMethod n name argument generator).Announces σ
      (σ.methodDeeds n name argument generator) := by
  unfold callMethod methodDeeds
  cases Method.named name with
  | error e => exact .refuse σ _ _ e
  | ok m =>
    simp only
    cases m.bind argument generator with
    | error e => exact .refuse σ _ _ e
    | ok bound =>
      obtain ⟨argument, generator⟩ := bound
      simp only
      split
      · exact announces_selectKind ..
      · unfold selectBy
        cases m.fragmentOf σ.appearance (argument.getD .null) with
        | error e => exact .refuse σ _ _ e
        | ok fragment => exact announces_selectFrom ..

/-! ### Building -/

theorem announces_buildRoot (σ : Session) (selector host generator : Datum)
    (options : Table Datum) {purpose : NodeId → Purpose} (hm : ∀ n, (purpose n).made? = some n)
    (hp : ∀ n, (purpose n).pending? = none) :
    (σ.buildRoot selector host generator options purpose).Announces σ
      (σ.rootDeeds selector host generator options) := by
  unfold buildRoot rootDeeds
  split
  · cases OptionSet.merge (optionsDatum options) with
    | error e => exact .refuse σ _ _ e
    | ok o =>
      have hd : (.planted σ.store.next selector (givenHost host) o : Event).announced? =
          some ((σ.store.plant selector (givenHost host) o).get σ.store.next).selector := by
        rw [Store.get_plant, if_pos rfl]
        rfl
      exact σ.announces_fill (purpose _) rfl hd (hm _) (hp _).symm generator
  · exact .refuse σ _ _ _

theorem announces_build (σ : Session) (selector generator : Datum) (host : Option Datum)
    (options : Table Datum) (output : Output) :
    (σ.build selector generator host options output).Announces σ
      (σ.buildDeeds selector generator host options) := by
  unfold build buildDeeds
  split
  · exact .refuse σ _ _ _
  · split
    · exact .refuse σ _ _ _
    · exact announces_buildRoot _ _ _ _ _ (fun _ => rfl) fun _ => rfl

theorem announces_construct (σ : Session) (selector generator host : Datum)
    (options : Table Datum) (parent : Option NodeId) :
    (σ.construct selector generator host options parent).Announces σ
      (σ.constructDeeds selector generator host options parent) := by
  unfold construct constructDeeds
  cases parent with
  | none => exact announces_buildRoot _ _ _ _ _ (fun _ => rfl) fun _ => rfl
  | some p =>
    simp only
    split
    · have hd : (.sprouted σ.store.next p selector (givenHost host) none : Event).announced? =
          some ((σ.store.sprout p selector (givenHost host)).get σ.store.next).selector := by
        rw [Store.get_sprout, if_pos rfl]
        rfl
      exact σ.announces_fill (.build _ _) rfl hd rfl rfl generator
    · exact .refuse σ _ _ _

theorem announces_obtain (σ : Session) (registry : RegistryId) (host generator : Datum)
    (options : Table Datum) (output : Output) :
    (σ.obtain registry host generator options output).Announces σ
      (σ.obtainDeeds registry host generator options) := by
  unfold obtain obtainDeeds
  split
  · exact .refuse σ _ _ _
  split
  · cases σ.asHost host with
    | error e => exact .refuse σ _ _ e
    | ok i =>
      simp only
      cases σ.sheet? registry i with
      | some sheet =>
        simp only
        cases hr : σ.record .resettingSheet host with
        | error e => exact .refuse σ _ _ e
        | ok σ₁ => exact .after (.of_record hr (by decide)) .nil (announces_reset ..)
      | none =>
        simp only
        cases hr : σ.record .buildingSheet host with
        | error e => exact .refuse σ _ _ e
        | ok σ₁ =>
          simp only
          split
          · exact .refuse σ _ _ _
          · exact .after (.of_record hr (by decide)) .nil
              (announces_buildRoot σ₁ _ _ _ _ (fun _ => rfl) fun _ => rfl)
  · exact .refuse σ _ _ _

theorem announces_createWith (σ : Session) (host first second : Datum) (options : Table Datum) :
    (σ.createWith host first second options).Announces σ
      (σ.createWithDeeds host first second options) := by
  unfold createWith createWithDeeds
  split
  · split
    · exact announces_obtain ..
    · exact .refuse σ _ _ _
  · split
    · exact announces_obtain ..
    · split
      · exact announces_build ..
      · exact .refuse σ _ _ _

theorem announces_create (σ : Session) (arguments : List Datum) (host : Datum)
    (options : Table Datum) :
    (σ.create arguments host options).Announces σ (σ.createDeeds arguments host options) := by
  unfold create createDeeds
  split
  · exact .refuse σ _ _ _
  rcases arguments with _ | ⟨first, _ | ⟨second, _ | ⟨third, rest⟩⟩⟩
  · exact .refuse σ _ _ _
  · exact announces_createWith σ _ first .null _
  · exact announces_createWith σ _ first second _
  · exact .refuse σ _ _ _

/-! ### Reading -/

theorem announces_probe (σ : Session) (n : NodeId) (listed : List (String × Picture))
    (names : List String) : (σ.probe n listed names).Announces σ [] := by
  induction names generalizing σ listed with
  | nil =>
    unfold probe
    exact .answer σ _
  | cons name rest ih =>
    unfold probe
    simp only
    split
    · cases ha : σ.apply (((σ.store.optionsOf n).get? name).getD .null) OptionSet.sample with
      | gives σ₁ d =>
        simp only
        cases d.picture σ₁.views with
        | error e => exact .refuse σ _ _ e
        | ok given => exact .after (.of_log (log_of_gives ha)) .nil (ih σ₁ _)
      | fails e => exact .refuse σ _ _ e
      | runs body => exact .still (.refl σ) rfl rfl .nil
    · cases (((σ.store.optionsOf n).get? name).getD .null).picture σ.views with
      | error e => exact .refuse σ _ _ e
      | ok p => exact ih σ _

theorem announces_readNode (σ : Session) (n : NodeId) (facet : Facet) :
    (σ.readNode n facet).Announces σ [] := by
  cases facet with
  | options => exact announces_probe ..
  | child index =>
    unfold readNode
    simp only
    split
    · exact .answer σ _
    · exact .refuse σ _ _ _
  | _ => exact .answer σ _

theorem announces_read (σ : Session) (subject : Datum) (facet : Facet) :
    (σ.read subject facet).Announces σ [] := by
  unfold read
  split
  · exact announces_readNode ..
  · split
    · exact .answer σ _
    · exact .answer σ _
    · exact .answer σ _
    · exact .refuse σ _ _ _

/-! ### Statements -/

/-- An action on the rule set that a statement names. -/
theorem announces_onNode {t : Target} {act : NodeId → Start} {events : NodeId → List Event}
    (h : ∀ n, (act n).Announces σ (events n)) :
    (σ.onNode t act).Announces σ (σ.targetDeeds t events) := by
  unfold onNode targetDeeds
  cases σ.target t with
  | node n => exact h n
  | _ => exact .refuse σ _ _ _

theorem announces_onNode_idle {t : Target} {act : NodeId → Start}
    (h : ∀ n, (act n).Announces σ []) : (σ.onNode t act).Announces σ [] := by
  unfold onNode
  split
  · exact h _
  · exact .refuse σ _ _ _

/-- An action that changes the store, but makes nothing. -/
theorem announces_changeStore (σ : Session) (store : Except Error Store) (result : Store → Result)
    {events : List Event} (hi : AllIdle events) :
    (σ.changeStore store result).Announces σ events := by
  unfold changeStore
  cases store with
  | error e => exact .refuse σ _ _ e
  | ok store => exact .done (by rfl) hi _

theorem idle_writeDeeds (σ : Session) (n : NodeId) (d : Datum) : AllIdle (σ.writeDeeds n d) := by
  unfold writeDeeds
  split
  · exact .single rfl
  · exact .nil

theorem log_withRegistry (σ : Session) (name : String) : (σ.withRegistry name).1.log = σ.log := by
  unfold withRegistry makeRegistry
  split <;> rfl

theorem announces_onRegistry {name : String} {act : Session → RegistryId → Start}
    {events : Session → RegistryId → List Event}
    (h : ∀ σ id, (act σ id).Announces σ (events σ id)) :
    (σ.onRegistry name act).Announces σ
      (events (σ.withRegistry name).1 (σ.withRegistry name).2) :=
  .after (.of_log (σ.log_withRegistry name)) .nil (h _ _)

theorem announces_onRegistry_idle {name : String} {act : Session → RegistryId → Start}
    (h : ∀ σ id, (act σ id).Announces σ []) : (σ.onRegistry name act).Announces σ [] :=
  announces_onRegistry h

theorem announces_release (σ : Session) (registry : RegistryId) (host : Datum) :
    (σ.release registry host).Announces σ [] := by
  unfold release
  cases hr : σ.record .releasingSheet host with
  | error e => exact .refuse σ _ _ e
  | ok σ₁ =>
    refine .after (.of_record hr (by decide)) .nil (?_ : Start.Announces σ₁ [] _)
    simp only
    split
    · split
      · exact .answer σ₁ _
      · exact .refuse σ₁ _ _ _
    · exact .refuse σ₁ _ _ _
    · exact .done (by rfl) .nil _

theorem announces_walks (σ : Session) {action : Action Datum (List Stmt)}
    (hw : action.walks = true) : (σ.begin action).Announces σ (σ.deeds action) := by
  cases action with
  | iterate t walk it =>
    simp only [begin, iterate]
    split
    · exact .refuse σ _ _ _
    · exact .done (by rfl) .nil _
  | advance it count =>
    simp only [begin, advance]
    split
    · exact .refuse σ _ _ _
    · exact .done (by rfl) .nil _
  | _ => cases hw

/-- A statement that does not fail at once makes no rule set but the one that it is going to fill,
and announces it. -/
theorem announces_begin (σ : Session) (action : Action Datum (List Stmt)) :
    (σ.begin action).Announces σ (σ.deeds action) := by
  cases action with
  | select t method argument generator => exact announces_onNode fun n => announces_callMethod ..
  | write t text =>
    exact announces_onNode fun n => announces_changeStore _ _ _ (σ.idle_writeDeeds _ _)
  | assign t properties keywords =>
    refine announces_onNode fun n => announces_changeStore _ _ _ ?_
    unfold assignDeeds
    split
    · exact .nil
    · exact σ.idle_writeDeeds _ _
  | define t name value =>
    refine announces_onNode fun n => announces_changeStore _ _ _ ?_
    unfold defineDeeds
    split
    · exact .nil
    · exact .single rfl
  | setScope t name value => exact announces_onNode_idle fun n => .refuse σ _ _ _
  | check t name => exact announces_onNode_idle fun n => .answer σ _
  | var t name => exact announces_onNode_idle fun n => .answer σ _
  | reset t generator => exact announces_onNode fun n => announces_reset ..
  | read t facet => exact announces_read ..
  | setOption t name value =>
    exact announces_onNode fun n => announces_changeStore _ _ _ (.single rfl)
  | iterate | advance => exact announces_walks σ rfl
  | same a b => exact .answer σ _
  | drop | makeHost | dropHost | makeRegistry => exact .done (by rfl) .nil _
  | build selector generator host options => exact announces_build ..
  | construct selector generator host options parent => exact announces_construct ..
  | create arguments host options => exact announces_create ..
  | lookup name host =>
    exact announces_onRegistry_idle fun σ id => .answer σ (σ.lookup id host)
  | contains name host =>
    exact announces_onRegistry_idle fun σ id => .answer σ (σ.containsHost id host)
  | size name =>
    exact announces_onRegistry_idle fun σ id =>
      .answer σ (.ok (.value (.int (σ.entries id).length)))
  | labelRegistry name =>
    exact announces_onRegistry_idle fun σ id => .answer σ (.ok (.text (σ.registryLabel id)))
  | release name host => exact announces_onRegistry_idle fun σ id => announces_release ..
  | clear name =>
    have h (σ : Session) (id : RegistryId) :
        (Start.done (σ.setEntries id []) (.ok .nothing)).Announces σ [] := .done (by rfl) .nil _
    exact announces_onRegistry_idle h
  | obtain name host generator options => exact announces_onRegistry fun σ id => announces_obtain ..
  | render name host generator options => exact announces_onRegistry fun σ id => announces_obtain ..
  | raise message => exact .refuse σ _ _ _
  | attempt body => exact .still (.refl σ) rfl rfl .nil

/-- What comes after the body of a statement announces what it makes. -/
theorem announces_finish (σ : Session) (purpose : Purpose) :
    (σ.finish purpose).Announces σ (σ.finishDeeds purpose) := by
  cases purpose with
  | select child fragment className =>
    refine .done (by rfl) ?_ _
    unfold finishDeeds
    simp only
    split
    · exact .single rfl
    · exact .nil
  | build n out => exact .answer σ _
  | reset n registry out => exact .answer σ _
  | register registry host n out => exact .done (by rfl) .nil _
  | name n kind generator callee => exact announces_selectNamed σ n .null generator
  | probe n callee listed name rest => exact announces_probe ..
  | attempt => exact .answer σ _

end Session

end RuleTree
