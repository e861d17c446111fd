import RuleTree.Proofs.History.Exact

/-!
# What statements leave alone

* `Session.Amends`: two sessions that differ in nothing but rule sets, the numbers given out, the
  generators written in place, and the log;
* `Purpose.made?`: the rule set that a call fills for the first time;
* `Start.Amends`: a start with such a session, which fills only what it has just made;
* one lemma for each operation on rule sets, from calling a value to reading options;
* `Session.amends_begin`, `Session.amends_finish`: most statements are such starts;
* `Session.made_of_begin`, `Session.made_of_finish`: whatever is filled for the first time is new.

Thus selections, builds and resets never touch handles, hosts, registries, iterations or calls.
-/

namespace RuleTree

/-- Whether a statement touches more than rule sets and what goes with them: iterations, handles,
hosts or registries. -/
def Action.reaches {α β : Type} : Action α β → Bool
  | .iterate _ _ _ | .advance _ _ | .drop _ | .makeHost _ _ | .dropHost _ | .makeRegistry _ => true
  | .lookup _ _ | .release _ _ | .contains _ _ | .size _ | .labelRegistry _ | .clear _ => true
  | .obtain _ _ _ _ | .render _ _ _ _ => true
  | _ => false

/-- Differing in nothing but rule sets, numbers given out, further generators written in place, and
the log, which is kept or not as before. -/
def Session.Amends (σ σ' : Session) : Prop :=
  ∃ store stamps added log, log.isSome = σ.log.isSome ∧
    σ' = { σ with store, stamps, bodies := σ.bodies ++ added, log }

namespace Session.Amends

variable {σ σ₁ σ₂ : Session}

theorem of_beside (h : σ.Beside σ₁) : σ.Amends σ₁ := by
  obtain ⟨_, _, _, hl, rfl⟩ := h
  exact ⟨_, _, _, _, hl, rfl⟩

theorem refl (σ : Session) : σ.Amends σ := .of_beside (.refl σ)

theorem trans (h : σ.Amends σ₁) (h' : σ₁.Amends σ₂) : σ.Amends σ₂ := by
  obtain ⟨_, _, a, _, hl, rfl⟩ := h
  obtain ⟨store, k, b, log, hl', rfl⟩ := h'
  exact ⟨store, k, a ++ b, log, hl'.trans hl, by simp only [Array.append_assoc]⟩

theorem of_store (σ : Session) (store : Store) : σ.Amends { σ with store } :=
  ⟨store, σ.stamps, #[], σ.log, rfl, by rw [Array.append_empty]⟩

theorem registries (h : σ.Amends σ₁) : σ₁.registries = σ.registries := by
  obtain ⟨_, _, _, _, _, rfl⟩ := h
  rfl

end Session.Amends

/-- The rule set that a call fills for the first time. -/
def Purpose.made? : Purpose → Option NodeId
  | select child _ _ => some child
  | build n _ => some n
  | register _ _ n _ => some n
  | _ => none

/-- Leading to a session that differs in rule sets and what goes with them only, and filling nothing
for the first time but what was just made. -/
structure Start.Amends (σ : Session) (ids : List RegistryId) (st : Start) : Prop where
  session : σ.Amends st.session
  next_le : σ.store.next ≤ st.session.store.next
  made : ∀ σ' purpose body n, st = .enter σ' purpose body → purpose.made? = some n →
    σ.store.next ≤ n ∧ n < σ'.store.next
  registry : ∀ σ' purpose body id, st = .enter σ' purpose body → purpose.registry? = some id →
    id ∈ ids

namespace Start.Amends

variable {σ σ₁ : Session} {ids : List RegistryId}

theorem done (h : σ.Amends σ₁) (hn : σ.store.next ≤ σ₁.store.next) (r : Except Error Result) :
    (Start.done σ₁ r).Amends σ ids :=
  ⟨h, hn, fun _ _ _ _ h => (by cases h), fun _ _ _ _ h => (by cases h)⟩

theorem answer (σ : Session) (r : Except Error Result) : (Start.answer σ r).Amends σ ids :=
  .done (.refl σ) (Nat.le_refl _) r

theorem refuse (σ : Session) (e : Error) : (Start.refuse σ e).Amends σ ids :=
  .done (.refl σ) (Nat.le_refl _) _

theorem enter (h : σ.Amends σ₁) (hn : σ.store.next ≤ σ₁.store.next) {purpose : Purpose}
    (hp : ∀ n, purpose.made? = some n → σ.store.next ≤ n ∧ n < σ₁.store.next)
    (hr : ∀ id, purpose.registry? = some id → id ∈ ids) (body : List Stmt) :
    (Start.enter σ₁ purpose body).Amends σ ids :=
  ⟨h, hn, fun _ _ _ n h hm => (by cases h; exact hp n hm),
    fun _ _ _ id h hi => (by cases h; exact hr id hi)⟩

/-- What comes before a start amends the session as well. -/
theorem after {st : Start} (h : σ.Amends σ₁) (hn : σ.store.next ≤ σ₁.store.next)
    (h' : st.Amends σ₁ ids) : st.Amends σ ids where
  session := h.trans h'.session
  next_le := Nat.le_trans hn h'.next_le
  made σ' purpose body n hs hm := by
    obtain ⟨h₁, h₂⟩ := h'.made σ' purpose body n hs hm
    exact ⟨Nat.le_trans hn h₁, h₂⟩
  registry := h'.registry

theorem mono {st : Start} {ids' : List RegistryId} (h : st.Amends σ ids)
    (hs : ∀ id ∈ ids, id ∈ ids') : st.Amends σ ids' :=
  { h with registry := fun σ' purpose body id h₁ h₂ => hs id (h.registry σ' purpose body id h₁ h₂) }

theorem after_beside {st : Start} (h : σ.Beside σ₁) (h' : st.Amends σ₁ ids) : st.Amends σ ids :=
  .after (.of_beside h) (Nat.le_of_eq (congrArg Store.next h.store.symm)) h'

end Start.Amends

namespace Session

variable {σ σ' : Session} {ids : List RegistryId}

/-! ### Generators -/

theorem amends_of_gives {callee subject d : Datum} (h : σ.apply callee subject = .gives σ' d) :
    σ.Amends σ' := by
  unfold apply at h
  split at h
  · cases h
  · split at h
    · split at h
      · split at h
        · cases h
          exact .of_store σ _
        · cases h
      · cases h
    · cases h
      exact .refl σ
    · cases h
  · split at h
    · rename_i hc
      cases h
      exact .of_beside ((keeps_className _ _).beside hc)
    · cases h
  · cases h
  · cases h

theorem next_le_of_gives {callee subject d : Datum} (h : σ.apply callee subject = .gives σ' d) :
    σ.store.next ≤ σ'.store.next := (turns_of_gives h).trail.next_le

/-- Running a generator, after something that amends the session. -/
theorem amends_launch {σ₁ : Session} (h : σ.Amends σ₁) (hn : σ.store.next ≤ σ₁.store.next)
    {purpose : Purpose}
    (hp : ∀ n, purpose.made? = some n → σ.store.next ≤ n ∧ n < σ₁.store.next)
    (hr : ∀ id, purpose.registry? = some id → id ∈ ids) (generator : Datum) (n : NodeId) :
    (σ₁.launch purpose generator n).Amends σ ids := by
  unfold launch
  split
  · rename_i hg
    have hle := next_le_of_gives hg
    exact .enter (h.trans (amends_of_gives hg)) (Nat.le_trans hn hle)
      (fun m hm => ⟨(hp m hm).1, Nat.lt_of_lt_of_le (hp m hm).2 hle⟩) hr _
  · exact .done h hn _
  · exact .enter h hn hp hr _

theorem amends_fill {store : Store} (hs : σ.store.next ≤ store.next) {purpose : Purpose}
    (hp : ∀ n, purpose.made? = some n → σ.store.next ≤ n ∧ n < store.next)
    (hi : ∀ id, purpose.registry? = some id → id ∈ ids) (n : NodeId) (generator : Datum) :
    (σ.fill store n purpose generator).Amends σ ids := by
  unfold fill
  simp only
  cases hr : { σ with store }.record .generating (store.get n).selector with
  | error e => exact .done (.of_store σ store) hs _
  | ok σ₁ =>
    have hb := Session.Beside.of_record hr
    refine amends_launch ((Amends.of_store σ store).trans (.of_beside hb)) ?_ ?_ hi _ _
    · rw [hb.store]
      exact hs
    · rw [hb.store]
      exact hp

theorem amends_reset (σ : Session) (n : NodeId) (registry : Option RegistryId) (output : Output)
    (generator : Datum) : (σ.reset n registry output generator).Amends σ registry.toList := by
  unfold reset
  split
  · have hs : (σ.store.clearForReset n).next = σ.store.next := by
      unfold Store.clearForReset
      split
      · exact Store.next_clear ..
      · rfl
    simp only
    cases hr : { σ with store := σ.store.clearForReset n }.record .resetting
        ((σ.store.clearForReset n).get n).selector with
    | error e => exact .done (.of_store σ _) (Nat.le_of_eq hs.symm) _
    | ok σ₁ =>
      have hb := Session.Beside.of_record hr
      refine amends_launch ((Amends.of_store σ _).trans (.of_beside hb)) ?_ ?_ ?_ _ _
      · rw [hb.store]
        exact Nat.le_of_eq hs.symm
      · intro m hm
        cases hm
      · intro id hid
        exact Option.mem_toList.2 hid
  · exact .refuse σ _

/-! ### Selections -/

theorem amends_selectFrom (σ : Session) (n : NodeId) (className : Option Datum) (fragment : Datum)
    (generator : Option Datum) : (σ.selectFrom n className fragment generator).Amends σ ids := by
  unfold selectFrom
  cases generator with
  | none => exact .answer σ _
  | some generator =>
    simp only
    split
    · exact .answer σ _
    · cases (σ.store.get n).selector.plus σ.stamps fragment with
      | error e => exact .refuse σ e
      | ok selector =>
        simp only
        split
        · let σ₁ := { σ with stamps := σ.stamps + 1 }
          have h₁ : σ.Amends σ₁ := .of_beside (.of_log σ _ rfl)
          refine .after h₁ (Nat.le_refl _) (amends_fill ?_ ?_ ?_ _ _)
          · simp [σ₁]
          · intro m hm
            cases hm
            simp [σ₁]
          · intro id hid
            cases hid
        · exact .refuse σ _

theorem amends_selectNamed (σ : Session) (n : NodeId) (className : Datum)
    (generator : Option Datum) : (σ.selectNamed n className generator).Amends σ ids := by
  unfold selectNamed
  cases Method.kind.fragmentOf σ.appearance className with
  | error e => exact .refuse σ e
  | ok fragment => exact amends_selectFrom ..

theorem amends_selectKind (σ : Session) (n : NodeId) (kind : Datum) (generator : Option Datum) :
    (σ.selectKind n kind generator).Amends σ ids := by
  unfold selectKind
  simp only
  cases hg : σ.apply (σ.store.optionsOf n).className kind with
  | gives σ₁ className =>
    exact .after (amends_of_gives hg) (next_le_of_gives hg) (amends_selectNamed ..)
  | fails e => exact .refuse σ e
  | runs body =>
    exact .enter (.refl σ) (Nat.le_refl _) (fun n hn => by cases hn) (fun id h => by cases h) _

theorem amends_callMethod (σ : Session) (n : NodeId) (name : String)
    (argument generator : Option Datum) :
    (σ.callMethod n name argument generator).Amends σ ids := by
  unfold callMethod
  cases Method.named name with
  | error e => exact .refuse σ e
  | ok m =>
    simp only
    cases m.bind argument generator with
    | error e => exact .refuse σ e
    | ok bound =>
      obtain ⟨argument, generator⟩ := bound
      simp only
      split
      · exact amends_selectKind ..
      · unfold selectBy
        cases m.fragmentOf σ.appearance (argument.getD .null) with
        | error e => exact .refuse σ e
        | ok fragment => exact amends_selectFrom ..

/-! ### Building -/

theorem amends_buildRoot (σ : Session) (selector host generator : Datum) (options : Table Datum)
    {purpose : NodeId → Purpose} (hp : ∀ n m, (purpose n).made? = some m → m = n)
    (hi : ∀ n id, Purpose.registry? (purpose n) = some id → id ∈ ids) :
    (σ.buildRoot selector host generator options purpose).Amends σ ids := by
  unfold buildRoot
  split
  · cases OptionSet.merge (optionsDatum options) with
    | error e => exact .refuse σ e
    | ok o =>
      refine amends_fill ?_ ?_ (hi _) _ _
      · simp
      · intro m hm
        rw [hp _ m hm]
        simp
  · exact .refuse σ _

theorem amends_build (σ : Session) (selector generator : Datum) (host : Option Datum)
    (options : Table Datum) (output : Output) :
    (σ.build selector generator host options output).Amends σ ids := by
  unfold build
  split
  · exact .refuse σ _
  · split
    · exact .refuse σ _
    · exact amends_buildRoot _ _ _ _ _ (fun n m h => (Option.some.inj h).symm) fun n id h => by
        cases h

theorem amends_construct (σ : Session) (selector generator host : Datum) (options : Table Datum)
    (parent : Option NodeId) :
    (σ.construct selector generator host options parent).Amends σ ids := by
  unfold construct
  cases parent with
  | none =>
    exact amends_buildRoot _ _ _ _ _ (fun n m h => (Option.some.inj h).symm) fun n id h => by cases h
  | some p =>
    simp only
    split
    · refine amends_fill ?_ ?_ ?_ _ _
      · simp
      · intro m hm
        cases hm
        simp
      · intro id hid
        cases hid
    · exact .refuse σ _

theorem amends_obtain (σ : Session) (registry : RegistryId) (host generator : Datum)
    (options : Table Datum) (output : Output) :
    (σ.obtain registry host generator options output).Amends σ [registry] := by
  unfold obtain
  split
  · exact .refuse σ _
  split
  · cases σ.asHost host with
    | error e => exact .refuse σ e
    | ok i =>
      simp only
      cases σ.sheet? registry i with
      | some sheet =>
        simp only
        cases hr : σ.record .resettingSheet host with
        | error e => exact .refuse σ e
        | ok σ₁ =>
          exact .after_beside (.of_record hr) (amends_reset σ₁ sheet (some registry) output generator)
      | none =>
        simp only
        cases hr : σ.record .buildingSheet host with
        | error e => exact .refuse σ e
        | ok σ₁ =>
          simp only
          split
          · exact .after_beside (.of_record hr) (.refuse σ₁ _)
          · exact .after_beside (.of_record hr)
              (amends_buildRoot _ _ _ _ _ (fun n m h => (Option.some.inj h).symm)
                fun n id h => List.mem_singleton.2 (Option.some.inj h).symm)
  · exact .refuse σ _

theorem amends_createWith (σ : Session) (host first second : Datum) (options : Table Datum) :
    (σ.createWith host first second options).Amends σ [firstRegistry] := by
  unfold createWith
  split
  · split
    · exact amends_obtain ..
    · exact .refuse σ _
  · split
    · exact amends_obtain ..
    · split
      · exact amends_build ..
      · exact .refuse σ _

theorem amends_create (σ : Session) (arguments : List Datum) (host : Datum)
    (options : Table Datum) : (σ.create arguments host options).Amends σ [firstRegistry] := by
  unfold create
  split
  · exact .refuse σ _
  rcases arguments with _ | ⟨first, _ | ⟨second, _ | ⟨third, rest⟩⟩⟩
  · exact .refuse σ _
  · exact amends_createWith σ _ first .null _
  · exact amends_createWith σ _ first second _
  · exact .refuse σ _

/-! ### Reading -/

theorem amends_probe (σ : Session) (n : NodeId) (listed : List (String × Picture))
    (names : List String) : (σ.probe n listed names).Amends σ ids := by
  induction names generalizing σ listed with
  | nil =>
    unfold probe
    exact .answer σ _
  | cons name rest ih =>
    unfold probe
    simp only
    split
    · cases ha : σ.apply (((σ.store.optionsOf n).get? name).getD .null) OptionSet.sample with
      | gives σ₁ d =>
        simp only
        cases d.picture σ₁.views with
        | error e => exact .after (amends_of_gives ha) (next_le_of_gives ha) (.refuse σ₁ e)
        | ok given => exact .after (amends_of_gives ha) (next_le_of_gives ha) (ih σ₁ _)
      | fails e => exact .refuse σ e
      | runs body =>
        exact .enter (.refl σ) (Nat.le_refl _) (fun n hn => by cases hn) (fun id h => by cases h) _
    · cases (((σ.store.optionsOf n).get? name).getD .null).picture σ.views with
      | error e => exact .refuse σ e
      | ok p => exact ih σ _

theorem amends_read (σ : Session) (subject : Datum) (facet : Facet) :
    (σ.read subject facet).Amends σ ids := by
  unfold read
  split
  · cases facet with
    | options => exact amends_probe ..
    | child index =>
      unfold readNode
      simp only
      split
      · exact .answer σ _
      · exact .refuse σ _
    | _ => exact .answer σ _
  · split
    · exact .answer σ _
    · exact .answer σ _
    · exact .answer σ _
    · exact .refuse σ _

theorem amends_onNode {t : Target} {act : NodeId → Start} (h : ∀ n, (act n).Amends σ ids) :
    (σ.onNode t act).Amends σ ids := by
  unfold onNode
  split
  · exact h _
  · exact .refuse σ _

theorem amends_changeStore (σ : Session) (store : Except Error Store) (result : Store → Result)
    (h : ∀ s, store = .ok s → σ.store.next ≤ s.next) :
    (σ.changeStore store result).Amends σ ids := by
  cases store with
  | error e => exact .refuse σ e
  | ok s => exact .done (.of_store σ s) (h s rfl) _

/-! ### Statements -/

theorem store_withRegistry (σ : Session) (name : String) :
    (σ.withRegistry name).1.store = σ.store := by
  unfold withRegistry makeRegistry
  split <;> rfl

theorem amends_write (σ : Session) (n : NodeId) (d : Datum) (result : Store → Result) :
    (σ.changeStore (σ.store.write n d) result).Amends σ ids := by
  refine amends_changeStore _ _ _ fun s hs => ?_
  obtain ⟨t, rfl⟩ := Store.exists_text_of_write hs
  exact (Store.becomes_of_write hs).next_le

/-- Most statements amend the session. -/
theorem amends_begin (σ : Session) {action : Action Datum (List Stmt)}
    (hr : action.reaches = false) : (σ.begin action).Amends σ [firstRegistry] := by
  cases action with
  | select t method argument generator => exact amends_onNode fun n => amends_callMethod ..
  | write t text => exact amends_onNode fun n => amends_write ..
  | assign t properties keywords =>
    refine amends_onNode fun n => ?_
    unfold Store.assign
    cases declarationsOf σ.appearance (some (properties.getD .null)) (.ofList keywords) with
    | error e => exact .refuse σ e
    | ok lines => exact amends_write ..
  | define t name value =>
    refine amends_onNode fun n => amends_changeStore _ _ _ fun s hs => ?_
    unfold Store.define at hs
    cases hv : propertyValue σ.appearance value with
    | error e => rw [hv] at hs; cases hs
    | ok text =>
      rw [hv] at hs
      cases hs
      exact Nat.le_of_eq (Store.next_define ..).symm
  | setScope t name value => exact amends_onNode fun n => .refuse σ _
  | check t name => exact amends_onNode fun n => .answer σ _
  | var t name => exact amends_onNode fun n => .answer σ _
  | reset t generator =>
    exact amends_onNode fun n => (amends_reset σ n none .node generator).mono (by simp)
  | read t facet => exact amends_read ..
  | setOption t name value =>
    refine amends_onNode fun n => amends_changeStore _ _ _ fun s hs => ?_
    cases hs
    exact Nat.le_refl _
  | same a b => exact .answer σ _
  | build selector generator host options => exact amends_build ..
  | construct selector generator host options parent => exact amends_construct ..
  | create arguments host options => exact amends_create ..
  | raise message => exact .refuse σ _
  | attempt body =>
    exact .enter (.refl σ) (Nat.le_refl _) (fun n hn => by cases hn) (fun id h => by cases h) _
  | _ => cases hr

/-- Ending a body amends the session, unless a new style sheet is kept. -/
theorem amends_finish (σ : Session) {purpose : Purpose}
    (hp : ∀ id host n out, purpose ≠ .register id host n out) :
    (σ.finish purpose).Amends σ ids := by
  cases purpose with
  | select child fragment className =>
    exact .done (.of_store σ _) (Nat.le_of_eq (Store.next_attach ..).symm) _
  | build n out => exact .answer σ _
  | reset n registry out => exact .answer σ _
  | register registry host n out => exact absurd rfl (hp _ _ _ _)
  | name n kind generator callee => exact amends_selectNamed σ n .null generator
  | probe n callee listed name rest => exact amends_probe ..
  | attempt => exact .answer σ _

/-- A statement that waits for a body amends the session, maybe after a registry was looked up by
name, or made. -/
theorem amends_of_enter {action : Action Datum (List Stmt)} {purpose : Purpose} {body : List Stmt}
    (h : σ.begin action = .enter σ' purpose body) :
    (σ.begin action).Amends σ [firstRegistry] ∨ ∃ name,
      (σ.begin action).Amends (σ.withRegistry name).1 [(σ.withRegistry name).2] := by
  cases hr : action.reaches with
  | false => exact .inl (σ.amends_begin hr)
  | true =>
    cases action with
    | iterate t walk iteration =>
      simp only [begin, iterate] at h
      split at h <;> cases h
    | advance iteration count =>
      simp only [begin, advance] at h
      split at h <;> cases h
    | release name host =>
      simp only [begin, onRegistry, release] at h
      split at h
      · cases h
      · split at h
        · split at h <;> cases h
        · cases h
        · cases h
    | obtain name host generator options => exact .inr ⟨name, amends_obtain ..⟩
    | render name host generator options => exact .inr ⟨name, amends_obtain ..⟩
    | drop | makeHost | dropHost | makeRegistry | lookup | contains | size | labelRegistry
    | clear => cases h
    | _ => cases hr

/-- What a statement fills for the first time was only just made. -/
theorem made_of_begin {action : Action Datum (List Stmt)} {purpose : Purpose} {body : List Stmt}
    {n : NodeId} (h : σ.begin action = .enter σ' purpose body) (hn : purpose.made? = some n) :
    σ.store.next ≤ n ∧ n < σ'.store.next := by
  rcases amends_of_enter h with ha | ⟨name, ha⟩
  · exact ha.made σ' purpose body n h hn
  · have hm := ha.made σ' purpose body n h hn
    rwa [store_withRegistry] at hm

/-- What goes on with another body after one has ended amends the session, and is at work on no
registry. -/
theorem amends_of_finish {purpose purpose' : Purpose} {body : List Stmt}
    (h : σ.finish purpose = .enter σ' purpose' body) : (σ.finish purpose).Amends σ [] := by
  refine amends_finish σ fun id host m out => ?_
  rintro rfl
  cases h

/-- What goes on with another body after one has ended fills a selected rule set. -/
theorem made_of_finish {purpose purpose' : Purpose} {body : List Stmt} {n : NodeId}
    (h : σ.finish purpose = .enter σ' purpose' body) (hn : purpose'.made? = some n) :
    σ.store.next ≤ n ∧ n < σ'.store.next :=
  (amends_of_finish h).made σ' purpose' body n h hn

end Session

end RuleTree
