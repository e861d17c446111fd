import RuleTree.Proofs.History.Deeds

/-!
# Statements do what their events say

* `Session.Turns`: a session that some events turn into another, in which calls and iterations are
  the same;
* `Start.Does`: a start with such a session, which waits only for the generators of selected rule
  sets that it made itself;
* `Session.does_begin`: the beginning of a statement does what its events say, and nothing else to
  rule sets, calls and iterations; only iterations are begun and advanced besides;
* `Session.does_finish`: the same for what comes after the body of a statement, unless the body was
  the generator of a selection.
-/

namespace RuleTree

/-- Whether an action begins or advances an iteration. -/
def Action.walks {α β : Type} : Action α β → Bool
  | .iterate _ _ _ => true
  | .advance _ _ => true
  | _ => false

/-- The rule set that a purpose is going to attach. -/
def Purpose.pending? : Purpose → Option NodeId
  | select child _ _ => some child
  | _ => none

namespace Start

/-- The session of a start. -/
def session : Start → Session
  | done σ _ => σ
  | enter σ _ _ => σ

/-- The rule set that is to be attached once the body of a start has ended. -/
def pending? : Start → Option NodeId
  | done _ _ => none
  | enter _ purpose _ => purpose.pending?

/-- The result of a start that is done at once. -/
def result? : Start → Option (Except Error Result)
  | done _ r => some r
  | enter _ _ _ => none

end Start

/-- Being made by a selection among some events. -/
def MadeBySelection (events : List Event) (c : NodeId) : Prop :=
  ∃ parent selector fragment, .sprouted c parent selector none (some fragment) ∈ events

theorem MadeBySelection.append_right {events : List Event} {c : NodeId}
    (h : MadeBySelection events c) (more : List Event) : MadeBySelection (events ++ more) c := by
  obtain ⟨p, d, f, h⟩ := h
  exact ⟨p, d, f, List.mem_append_left _ h⟩

theorem MadeBySelection.append_left {events : List Event} {c : NodeId}
    (h : MadeBySelection events c) (before : List Event) :
    MadeBySelection (before ++ events) c := by
  obtain ⟨p, d, f, h⟩ := h
  exact ⟨p, d, f, List.mem_append_right _ h⟩

/-- Turning into another session by some events, none of which lists a child, with the same calls
and iterations. -/
structure Session.Turns (σ : Session) (events : List Event) (σ' : Session) : Prop where
  trail : σ.store.Trail events σ'.store
  quiet : ∀ e ∈ events, e.lists = false
  calls : σ'.calls = σ.calls
  iterations : σ'.iterations = σ.iterations

namespace Session.Turns

variable {σ σ₁ σ₂ : Session} {events events' : List Event}

/-- Nothing happens to the rule sets if the store stays the same. -/
theorem still (hs : σ₁.store = σ.store) (hc : σ₁.calls = σ.calls)
    (hi : σ₁.iterations = σ.iterations) : σ.Turns [] σ₁ where
  trail := hs ▸ .nil _
  quiet := by simp
  calls := hc
  iterations := hi

theorem refl (σ : Session) : σ.Turns [] σ := .still rfl rfl rfl

theorem of_beside (h : σ.Beside σ₁) : σ.Turns [] σ₁ := .still h.store h.calls h.iterations

theorem trans (h : σ.Turns events σ₁) (h' : σ₁.Turns events' σ₂) :
    σ.Turns (events ++ events') σ₂ where
  trail := h.trail.append h'.trail
  quiet e he := (List.mem_append.1 he).elim (h.quiet e) (h'.quiet e)
  calls := h'.calls.trans h.calls
  iterations := h'.iterations.trans h.iterations

/-- One event that lists nothing. -/
theorem event {store : Store} {e : Event} (h : σ.store.Becomes e store) (hq : e.lists = false) :
    σ.Turns [e] { σ with store } where
  trail := .single h
  quiet := by simpa using hq
  calls := rfl
  iterations := rfl

end Session.Turns

/-- Doing what some events say, and waiting only for a selected rule set that one of them made. -/
structure Start.Does (σ : Session) (events : List Event) (st : Start) : Prop where
  turns : σ.Turns events st.session
  waits : ∀ c, st.pending? = some c → MadeBySelection events c

namespace Start.Does

variable {σ σ₁ : Session} {events events' : List Event}

theorem done (h : σ.Turns events σ₁) (r : Except Error Result) :
    (Start.done σ₁ r).Does σ events := ⟨h, by simp [pending?]⟩

/-- Something is done that is beside rule sets, calls and iterations. -/
theorem aside (hs : σ₁.store = σ.store) (hc : σ₁.calls = σ.calls)
    (hi : σ₁.iterations = σ.iterations) (r : Except Error Result) :
    (Start.done σ₁ r).Does σ [] := .done (.still hs hc hi) r

theorem refuse (σ : Session) (e : Error) : (Start.refuse σ e).Does σ [] := .done (.refl σ) _

theorem answer (σ : Session) (r : Except Error Result) : (Start.answer σ r).Does σ [] :=
  .done (.refl σ) r

/-- What comes before a start is done before it. -/
theorem after {st : Start} (h : σ.Turns events σ₁) (h' : st.Does σ₁ events') :
    st.Does σ (events ++ events') :=
  ⟨h.trans h'.turns, fun c hc => (h'.waits c hc).append_left events⟩

end Start.Does

namespace Session

variable {σ σ' : Session}

/-! ### Generators -/

theorem turns_of_gives {callee subject d : Datum} (h : σ.apply callee subject = .gives σ' d) :
    σ.Turns (σ.callDeeds callee subject) σ' := by
  unfold apply at h
  split at h
  · cases h
  · rename_i host
    split at h
    · rename_i hk
      split at h
      · rename_i n
        split at h
        · rename_i store hw
          cases h
          have hd : σ.callDeeds (.host host) (.node n) = [.wrote n (σ.hostText host)] := by
            simp only [callDeeds, hk, hw]
          rw [hd]
          exact .event (Store.becomes_of_write hw) rfl
        · cases h
      · cases h
    · rename_i hk
      cases h
      have hd : σ.callDeeds (.host host) subject = [] := by
        cases subject <;> simp only [callDeeds, hk]
      rw [hd]
      exact .refl σ
    · cases h
  · rename_i rule stamp
    split at h
    · rename_i hc
      cases h
      exact .of_beside ((keeps_className rule _).beside hc)
    · cases h
  · cases h
  · cases h

theorem callDeeds_of_fails {callee subject : Datum} {e : Error}
    (h : σ.apply callee subject = .fails e) : σ.callDeeds callee subject = [] := by
  unfold callDeeds
  split
  · rename_i host n
    split
    · rename_i hk hw
      simp only [apply, hk, hw] at h
      cases h
    · rfl
  · rfl

/-- Running a generator on a rule set, after some events. -/
theorem does_launch {events : List Event} (h : σ.Turns events σ') {purpose : Purpose}
    (hp : ∀ c, purpose.pending? = some c → MadeBySelection events c) (generator : Datum)
    (n : NodeId) :
    (σ'.launch purpose generator n).Does σ (events ++ σ'.callDeeds generator (.node n)) := by
  unfold launch
  split
  · rename_i hg
    exact ⟨h.trans (turns_of_gives hg), fun c hc => (hp c hc).append_right _⟩
  · rename_i hf
    rw [callDeeds_of_fails hf]
    exact .after h (.refuse σ' _)
  · rename_i body hb
    -- only a list of statements has a body to run, and it has not begun yet
    have hd : σ'.callDeeds generator (.node n) = [] := by
      cases generator with
      | generator g => rfl
      | host host =>
        simp only [apply] at hb
        split at hb
        · split at hb <;> cases hb
        · cases hb
        · cases hb
      | naming rule stamp =>
        simp only [apply] at hb
        split at hb <;> cases hb
      | _ => cases hb
    rw [hd, List.append_nil]
    exact ⟨h, hp⟩

/-- Making a rule set and running a generator on it. -/
theorem does_fill {store : Store} {made : Event} (h : σ.store.Becomes made store)
    (hq : made.lists = false) {purpose : Purpose}
    (hp : ∀ c, purpose.pending? = some c → MadeBySelection [made] c) (n : NodeId)
    (generator : Datum) :
    (σ.fill store n purpose generator).Does σ (σ.fillDeeds made store n generator) := by
  have hm : σ.Turns [made] { σ with store } := .event h hq
  unfold fill fillDeeds
  simp only
  cases hr : { σ with store }.record .generating (store.get n).selector with
  | error e => exact .done hm _
  | ok σ' =>
    simpa using does_launch (hm.trans (.of_beside (.of_record hr)))
      (fun c hc => (hp c hc).append_right []) generator n

theorem turns_clearForReset (σ : Session) (n : NodeId) :
    σ.Turns (if σ.store.clearsOnReset n then [.cleared n] else [])
      { σ with store := σ.store.clearForReset n } := by
  unfold Store.clearForReset
  split
  · rename_i hs
    exact .event (.cleared n hs) rfl
  · exact .refl σ

theorem does_reset (σ : Session) (n : NodeId) (registry : Option RegistryId) (output : Output)
    (generator : Datum) :
    (σ.reset n registry output generator).Does σ (σ.resetDeeds n generator) := by
  have hc := turns_clearForReset σ n
  unfold reset resetDeeds
  split
  -- the rule set stays emptied even if the log refuses the reset
  · simp only
    cases hr : { σ with store := σ.store.clearForReset n }.record .resetting
        ((σ.store.clearForReset n).get n).selector with
    | error e =>
      rw [List.append_nil]
      exact .done hc _
    | ok σ' =>
      simpa using does_launch (hc.trans (.of_beside (.of_record hr)))
        (fun c hc => by cases hc) generator n
  · exact .refuse σ _

/-! ### Selections -/

theorem does_selectFrom (σ : Session) (n : NodeId) (className : Option Datum) (fragment : Datum)
    (generator : Option Datum) :
    (σ.selectFrom n className fragment generator).Does σ (σ.selectDeeds n fragment generator) := by
  unfold selectFrom selectDeeds
  cases generator with
  | none => exact .answer σ _
  | some generator =>
    simp only
    split
    · exact .answer σ _
    · cases hs : (σ.store.get n).selector.plus σ.stamps fragment with
      | error e => exact .refuse σ _
      | ok selector =>
        simp only
        split
        · let σ' := { σ with stamps := σ.stamps + 1 }
          have hm : σ'.store.Becomes (.sprouted σ.store.next n selector none (some fragment))
              (σ.store.sprout n selector none) :=
            .sprouted n selector none (some fragment) fun f hf => ⟨σ.stamps, by
              cases hf
              exact hs⟩
          have ht : σ.Turns [] σ' := .still rfl rfl rfl
          refine .after ht (does_fill hm rfl (fun c hc => ?_) _ _)
          cases hc
          exact ⟨n, selector, fragment, List.mem_singleton.2 rfl⟩
        · exact .refuse σ _

theorem does_selectNamed (σ : Session) (n : NodeId) (className : Datum)
    (generator : Option Datum) :
    (σ.selectNamed n className generator).Does σ (σ.namedDeeds n className generator) := by
  unfold selectNamed namedDeeds
  cases Method.kind.fragmentOf σ.appearance className with
  | error e => exact .refuse σ _
  | ok fragment => exact does_selectFrom ..

theorem does_selectKind (σ : Session) (n : NodeId) (kind : Datum) (generator : Option Datum) :
    (σ.selectKind n kind generator).Does σ (σ.kindDeeds n kind generator) := by
  unfold selectKind kindDeeds
  simp only
  cases hg : σ.apply (σ.store.optionsOf n).className kind with
  | gives σ' className => exact .after (turns_of_gives hg) (does_selectNamed ..)
  | fails e => exact .refuse σ _
  | runs body => exact ⟨.refl σ, fun c hc => by cases hc⟩

theorem does_callMethod (σ : Session) (n : NodeId) (name : String)
    (argument generator : Option Datum) :
    (σ.callMethod n name argument generator).Does σ (σ.methodDeeds n name argument generator) := by
  unfold callMethod methodDeeds
  cases Method.named name with
  | error e => exact .refuse σ _
  | ok m =>
    simp only
    cases m.bind argument generator with
    | error e => exact .refuse σ _
    | ok bound =>
      obtain ⟨argument, generator⟩ := bound
      simp only
      split
      · exact does_selectKind ..
      · unfold selectBy
        cases m.fragmentOf σ.appearance (argument.getD .null) with
        | error e => exact .refuse σ _
        | ok fragment => exact does_selectFrom ..

/-! ### Building -/

theorem does_buildRoot (σ : Session) (selector host generator : Datum) (options : Table Datum)
    {purpose : NodeId → Purpose} (hp : ∀ n, (purpose n).pending? = none) :
    (σ.buildRoot selector host generator options purpose).Does σ
      (σ.rootDeeds selector host generator options) := by
  unfold buildRoot rootDeeds
  split
  · cases OptionSet.merge (optionsDatum options) with
    | error e => exact .refuse σ _
    | ok o => exact does_fill (.planted ..) rfl (fun c hc => by rw [hp] at hc; cases hc) _ _
  · exact .refuse σ _

theorem does_build (σ : Session) (selector generator : Datum) (host : Option Datum)
    (options : Table Datum) (output : Output) :
    (σ.build selector generator host options output).Does σ
      (σ.buildDeeds selector generator host options) := by
  unfold build buildDeeds
  split
  · exact .refuse σ _
  · split
    · exact .refuse σ _
    · exact does_buildRoot _ _ _ _ _ fun _ => rfl

theorem does_construct (σ : Session) (selector generator host : Datum) (options : Table Datum)
    (parent : Option NodeId) :
    (σ.construct selector generator host options parent).Does σ
      (σ.constructDeeds selector generator host options parent) := by
  unfold construct constructDeeds
  cases parent with
  | none => exact does_buildRoot _ _ _ _ _ fun _ => rfl
  | some p =>
    simp only
    split
    · have hm : σ.store.Becomes (.sprouted σ.store.next p selector (givenHost host) none)
          (σ.store.sprout p selector (givenHost host)) :=
        .sprouted p selector (givenHost host) none fun f hf => by cases hf
      exact does_fill hm rfl (fun c hc => by cases hc) _ _
    · exact .refuse σ _

theorem does_obtain (σ : Session) (registry : RegistryId) (host generator : Datum)
    (options : Table Datum) (output : Output) :
    (σ.obtain registry host generator options output).Does σ
      (σ.obtainDeeds registry host generator options) := by
  unfold obtain obtainDeeds
  split
  · exact .refuse σ _
  split
  · cases σ.asHost host with
    | error e => exact .refuse σ _
    | ok i =>
      simp only
      cases σ.sheet? registry i with
      | some sheet =>
        simp only
        cases hr : σ.record .resettingSheet host with
        | error e => exact .refuse σ _
        | ok σ' => exact .after (.of_beside (.of_record hr)) (does_reset ..)
      | none =>
        simp only
        cases hr : σ.record .buildingSheet host with
        | error e => exact .refuse σ _
        | ok σ' =>
          have hb : σ.Turns [] σ' := .of_beside (.of_record hr)
          simp only
          split
          · exact .after hb (.refuse σ' _)
          · exact .after hb (does_buildRoot σ' _ _ _ _ fun _ => rfl)
  · exact .refuse σ _

theorem does_createWith (σ : Session) (host first second : Datum) (options : Table Datum) :
    (σ.createWith host first second options).Does σ
      (σ.createWithDeeds host first second options) := by
  unfold createWith createWithDeeds
  split
  · split
    · exact does_obtain ..
    · exact .refuse σ _
  · split
    · exact does_obtain ..
    · split
      · exact does_build ..
      · exact .refuse σ _

theorem does_create (σ : Session) (arguments : List Datum) (host : Datum)
    (options : Table Datum) :
    (σ.create arguments host options).Does σ (σ.createDeeds arguments host options) := by
  unfold create createDeeds
  split
  · exact .refuse σ _
  -- from here on host and options are the same on both sides
  rcases arguments with _ | ⟨first, _ | ⟨second, _ | ⟨third, rest⟩⟩⟩
  · exact .refuse σ _
  · exact does_createWith σ _ first .null _
  · exact does_createWith σ _ first second _
  · exact .refuse σ _

/-! ### Reading -/

/-- Calling a value on the sample kind touches no rule set. -/
theorem turns_of_sample {callee d : Datum}
    (h : σ.apply callee OptionSet.sample = .gives σ' d) : σ.Turns [] σ' := by
  have ht := turns_of_gives h
  have hd : σ.callDeeds callee OptionSet.sample = [] := by cases callee <;> rfl
  rwa [hd] at ht

theorem does_probe (σ : Session) (n : NodeId) (listed : List (String × Picture))
    (names : List String) : (σ.probe n listed names).Does σ [] := by
  induction names generalizing σ listed with
  | nil =>
    unfold probe
    exact .answer σ _
  | cons name rest ih =>
    unfold probe
    simp only
    split
    · cases ha : σ.apply (((σ.store.optionsOf n).get? name).getD .null) OptionSet.sample with
      | gives σ' d =>
        simp only
        have ht := turns_of_sample ha
        cases d.picture σ'.views with
        | error e => exact .after ht (.refuse σ' _)
        | ok given => exact .after ht (ih σ' _)
      | fails e => exact .refuse σ _
      | runs body => exact ⟨.refl σ, fun c hc => by cases hc⟩
    · cases (((σ.store.optionsOf n).get? name).getD .null).picture σ.views with
      | error e => exact .refuse σ _
      | ok p => exact ih σ _

theorem does_readNode (σ : Session) (n : NodeId) (facet : Facet) :
    (σ.readNode n facet).Does σ [] := by
  cases facet with
  | options => exact does_probe ..
  | child index =>
    unfold readNode
    simp only
    split
    · exact .answer σ _
    · exact .refuse σ _
  | _ => exact .answer σ _

theorem does_read (σ : Session) (subject : Datum) (facet : Facet) :
    (σ.read subject facet).Does σ [] := by
  unfold read
  split
  · exact does_readNode ..
  · split
    · exact .answer σ _
    · exact .answer σ _
    · exact .answer σ _
    · exact .refuse σ _

/-! ### Statements -/

/-- An action on the rule set that a statement names. -/
theorem does_onNode {t : Target} {act : NodeId → Start} {events : NodeId → List Event}
    (h : ∀ n, (act n).Does σ (events n)) : (σ.onNode t act).Does σ (σ.targetDeeds t events) := by
  unfold onNode targetDeeds
  cases σ.target t with
  | node n => exact h n
  | _ => exact .refuse σ _

theorem does_onNode_idle {t : Target} {act : NodeId → Start} (h : ∀ n, (act n).Does σ []) :
    (σ.onNode t act).Does σ [] := by
  unfold onNode
  split
  · exact h _
  · exact .refuse σ _

theorem does_write (σ : Session) (n : NodeId) (d : Datum) (result : Store → Result) :
    (σ.changeStore (σ.store.write n d) result).Does σ (σ.writeDeeds n d) := by
  unfold writeDeeds
  cases hw : σ.store.write n d with
  | error e => exact .refuse σ e
  | ok s =>
    obtain ⟨t, rfl⟩ := Store.exists_text_of_write hw
    exact .done (.event (Store.becomes_of_write hw) rfl) _

theorem does_onRegistry {name : String} {act : Session → RegistryId → Start}
    {events : Session → RegistryId → List Event} (h : ∀ σ id, (act σ id).Does σ (events σ id)) :
    (σ.onRegistry name act).Does σ (events (σ.withRegistry name).1 (σ.withRegistry name).2) := by
  have hw : σ.Turns [] (σ.withRegistry name).1 := by
    unfold withRegistry makeRegistry
    split <;> exact .still rfl rfl rfl
  exact .after hw (h _ _)

theorem does_onRegistry_idle {name : String} {act : Session → RegistryId → Start}
    (h : ∀ σ id, (act σ id).Does σ []) : (σ.onRegistry name act).Does σ [] :=
  does_onRegistry h

theorem does_release (σ : Session) (registry : RegistryId) (host : Datum) :
    (σ.release registry host).Does σ [] := by
  unfold release
  cases hr : σ.record .releasingSheet host with
  | error e => exact .refuse σ e
  | ok σ' =>
    refine .after (.of_beside (.of_record hr)) (?_ : Start.Does σ' [] _)
    simp only
    split
    · split
      · exact .answer σ' _
      · exact .refuse σ' _
    · exact .refuse σ' _
    · exact .aside (by rfl) (by rfl) (by rfl) _

/-- The beginning of a statement does what its events say. -/
theorem does_begin (σ : Session) (action : Action Datum (List Stmt))
    (hw : action.walks = false) : (σ.begin action).Does σ (σ.deeds action) := by
  cases action with
  | select t method argument generator => exact does_onNode fun n => does_callMethod ..
  | write t text => exact does_onNode fun n => does_write ..
  | assign t properties keywords =>
    refine does_onNode fun n => ?_
    unfold Store.assign assignDeeds
    cases declarationsOf σ.appearance (some (properties.getD .null)) (.ofList keywords) with
    | error e => exact .refuse σ e
    | ok lines => exact does_write ..
  | define t name value =>
    refine does_onNode fun n => ?_
    unfold Store.define defineDeeds
    cases propertyValue σ.appearance value with
    | error e => exact .refuse σ e
    | ok text => exact .done (.event (.defined n name text) rfl) _
  | setScope t name value => exact does_onNode_idle fun n => .refuse σ _
  | check t name => exact does_onNode_idle fun n => .answer σ _
  | var t name => exact does_onNode_idle fun n => .answer σ _
  | reset t generator => exact does_onNode fun n => does_reset ..
  | read t facet => exact does_read ..
  | setOption t name value =>
    exact does_onNode fun n => .done (.event (.optionSet n name value) rfl) _
  | iterate | advance => cases hw
  | same a b => exact .answer σ _
  | drop | makeHost | dropHost | makeRegistry => exact .aside (by rfl) (by rfl) (by rfl) _
  | build selector generator host options => exact does_build ..
  | construct selector generator host options parent => exact does_construct ..
  | create arguments host options => exact does_create ..
  | lookup name host =>
    exact does_onRegistry_idle fun σ id => .answer σ (σ.lookup id host)
  | contains name host =>
    exact does_onRegistry_idle fun σ id => .answer σ (σ.containsHost id host)
  | size name =>
    exact does_onRegistry_idle fun σ id => .answer σ (.ok (.value (.int (σ.entries id).length)))
  | labelRegistry name =>
    exact does_onRegistry_idle fun σ id => .answer σ (.ok (.text (σ.registryLabel id)))
  | release name host => exact does_onRegistry_idle fun σ id => does_release ..
  | clear name =>
    have h (σ : Session) (id : RegistryId) :
        (Start.done (σ.setEntries id []) (.ok .nothing)).Does σ [] :=
      .aside (by rfl) (by rfl) (by rfl) _
    exact does_onRegistry_idle h
  | obtain name host generator options => exact does_onRegistry fun σ id => does_obtain ..
  | render name host generator options => exact does_onRegistry fun σ id => does_obtain ..
  | raise message => exact .refuse σ _
  | attempt body => exact ⟨.refl σ, fun c hc => by cases hc⟩

/-- The end of a body does what its events say, unless it was the generator of a selection. -/
theorem does_finish (σ : Session) (purpose : Purpose) (hp : purpose.pending? = none) :
    (σ.finish purpose).Does σ (σ.finishDeeds purpose) := by
  cases purpose with
  | select child fragment className => cases hp
  | build n out => exact .answer σ _
  | reset n registry out => exact .answer σ _
  | register registry host n out => exact .aside (by rfl) (by rfl) (by rfl) _
  | name n kind generator callee => exact does_selectNamed σ n .null generator
  | probe n callee listed name rest => exact does_probe ..
  | attempt => exact .answer σ _

end Session

end RuleTree
