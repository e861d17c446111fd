import RuleTree.Proofs.Blocks.Remaining
import RuleTree.Proofs.Lifetime.Closed

/-!
# Statements refer to what can be referred to

* `Start.Closed`: a start that leads to a session in which a property is still closed, and the
  property is one of whatever is answered or waited for;
* one lemma for each operation, from calling a value to keeping a style sheet;
* `Session.closed_begin`, `Session.closed_finish`: all statements are such starts.
-/

namespace RuleTree

/-- Leading to a session in which a property is closed, and to no answer and no call that refers to
anything that lacks it. -/
structure Start.Closed (P : Identity → Prop) (st : Start) : Prop where
  session : st.session.Closed P
  result : ∀ r, st.result? = some (.ok r) → ∀ i ∈ r.datum.identities, P i
  purpose : ∀ σ purpose body, st = .enter σ purpose body → ∀ i ∈ purpose.links, P i

namespace Start.Closed

variable {σ : Session} {P : Identity → Prop}

theorem done (h : σ.Closed P) {r : Except Error Result}
    (hr : ∀ a, r = .ok a → ∀ i ∈ a.datum.identities, P i) : (Start.done σ r).Closed P :=
  ⟨h, fun a ha => hr a (Option.some.inj ha), nofun⟩

theorem refuse (h : σ.Closed P) (e : Error) : (Start.refuse σ e).Closed P := .done h nofun

theorem enter (h : σ.Closed P) {purpose : Purpose} (hp : ∀ i ∈ purpose.links, P i)
    (body : List Stmt) : (Start.enter σ purpose body).Closed P :=
  ⟨h, nofun, fun _ _ _ he => by
    cases he
    exact hp⟩

/-- An answer that refers to nothing is closed. -/
theorem plain (h : σ.Closed P) {r : Except Error Result} (hr : Unlinked r) :
    (Start.done σ r).Closed P :=
  .done h fun a ha i hi => by
    rw [hr a ha] at hi
    cases hi

/-- A change that answers nothing is closed if it leaves a closed session. -/
theorem nothing (h : σ.Closed P) : (Start.done σ (.ok .nothing)).Closed P :=
  .plain h fun a ha => by
    cases ha
    rfl

end Start.Closed

/-! ### Cursors -/

namespace Cursor

variable {s : Store} {look : Appearance} {c c' : Cursor} {P : Identity → Prop}

/-- A step goes on to a child, or to where the cursor was. -/
theorem mem_nodes_of_step {block : Option String} (h : step s look c = .ok (c', block)) {n : NodeId}
    (hn : n ∈ c'.nodes) : n ∈ c.nodes ∨ ∃ m ∈ c.nodes, n ∈ (s.get m).children := by
  match c with
  | [] =>
    cases h
    exact .inl hn
  | .enter m :: rest =>
    simp only [step] at h
    cases hb : s.block? look m with
    | error e =>
      rw [hb] at h
      cases h
    | ok b =>
      rw [hb] at h
      cases h
      exact .inl hn
  | .resume m i :: rest =>
    simp only [step] at h
    split at h
    · rename_i d hd
      cases h
      rcases List.mem_cons.1 hn with rfl | hn
      · exact .inr ⟨m, List.mem_cons_self, List.mem_of_getElem? hd⟩
      · exact .inl hn
    · cases h
      exact .inl (List.mem_cons_of_mem _ hn)

/-- What children share with the rule sets that list them, the cursor keeps on its way to the next
block. -/
theorem nodes_next (hs : ∀ n, P (.node n) → ∀ c ∈ (s.get n).children, P (.node c))
    (hc : ∀ n ∈ c.nodes, P (.node n)) {block : Option String}
    (h : next s look c = .ok (block, c')) : ∀ n ∈ c'.nodes, P (.node n) := by
  -- on the work that is left to the cursor: a step that shows no block leaves less
  generalize hw : c.work s = w
  induction w using Nat.strongRecOn generalizing c with
  | ind w ih =>
    by_cases hne : c = []
    · subst hne
      rw [next_nil] at h
      cases h
      nofun
    cases hd : step s look c with
    | error e =>
      rw [next_of_step_error hd] at h
      cases h
    | ok p =>
      obtain ⟨d, shown⟩ := p
      have hnodes (n : NodeId) (hn : n ∈ d.nodes) : P (.node n) := by
        rcases mem_nodes_of_step hd hn with hn | ⟨m, hm, hn⟩
        · exact hc n hn
        · exact hs m (hc m hm) n hn
      cases shown with
      | some block =>
        rw [next_of_step hd] at h
        cases h
        exact hnodes
      | none =>
        rw [next_of_step_none hne hd] at h
        have := work_step hne hd
        exact ih _ (by omega) hnodes h rfl

end Cursor

namespace Session

variable {σ : Session} {P : Identity → Prop} {n : NodeId}

/-! ### Generators -/

theorem closed_of_gives (h : σ.Closed P) {callee subject d : Datum} {σ₁ : Session}
    (hc : ∀ i ∈ callee.identities, P i) (hg : σ.apply callee subject = .gives σ₁ d) :
    σ₁.Closed P ∧ ∀ i ∈ d.identities, P i := by
  unfold apply at hg
  split at hg
  · cases hg
  · split at hg
    · split at hg
      · split at hg
        · rename_i hw
          cases hg
          exact ⟨h.write hw, nofun⟩
        · cases hg
      · cases hg
    · cases hg
      exact ⟨h, hc⟩
    · cases hg
  · split at hg
    · rename_i hd
      cases hg
      exact h.tells (tells_className (.refl σ) _ _) hd
    · cases hg
  · cases hg
  · cases hg

theorem closed_launch (h : σ.Closed P) {purpose : Purpose} {generator : Datum}
    (hg : ∀ i ∈ generator.identities, P i) (hp : ∀ i ∈ purpose.links, P i) (n : NodeId) :
    (σ.launch purpose generator n).Closed P := by
  unfold launch
  split
  · rename_i ha
    exact .enter (closed_of_gives h hg ha).1 hp _
  · exact .refuse h _
  · exact .enter h hp _

theorem closed_fill {store : Store} (h : ({ σ with store } : Session).Closed P) {purpose : Purpose}
    {generator : Datum} (hg : ∀ i ∈ generator.identities, P i) (hp : ∀ i ∈ purpose.links, P i)
    (n : NodeId) : (σ.fill store n purpose generator).Closed P := by
  unfold fill
  simp only
  cases hr : { σ with store }.record .generating (store.get n).selector with
  | error e => exact .refuse h e
  | ok σ₁ => exact closed_launch (h.follows (.of_record hr)) hg hp n

theorem closed_reset (h : σ.Closed P) (hp : P (.node n)) (registry : Option RegistryId)
    (output : Output) {generator : Datum} (hg : ∀ i ∈ generator.identities, P i) :
    (σ.reset n registry output generator).Closed P := by
  unfold reset
  split
  · have h' := h.clearForReset n
    simp only
    cases hr : { σ with store := σ.store.clearForReset n }.record .resetting
        ((σ.store.clearForReset n).get n).selector with
    | error e => exact .refuse h' e
    | ok σ₁ =>
      refine closed_launch (h'.follows (.of_record hr)) hg (fun i hi => ?_) n
      cases List.mem_singleton.1 hi
      exact hp
  · exact .refuse h _

/-! ### Selections -/

section Selections

variable (hn : n < σ.store.next) (hp : P (.node n))
include hn hp

theorem closed_selectFrom (h : σ.Closed P) {className : Option Datum} {fragment : Datum}
    {generator : Option Datum} (hc : ∀ d ∈ className, ∀ i ∈ d.identities, P i)
    (hf : ∀ i ∈ fragment.identities, P i) (hg : ∀ d ∈ generator, ∀ i ∈ d.identities, P i) :
    (σ.selectFrom n className fragment generator).Closed P := by
  have same : (Start.answer σ (.ok (.value fragment))).Closed P := .done h fun a ha => by
    cases ha
    exact hf
  unfold selectFrom
  cases generator with
  | none => exact same
  | some generator =>
    simp only
    split
    · exact same
    · cases hs : (σ.store.get n).selector.plus σ.stamps fragment with
      | error e => exact .refuse h e
      | ok selector =>
        simp only
        split
        · have hk : σ.Follows { σ with stamps := σ.stamps + 1 } := ⟨.of_log σ _ rfl, Nat.le_succ _⟩
          have hsel (i : Identity) (hi : i ∈ selector.identities) : P i :=
            (Datum.mem_of_plus hs hi).elim (fun hi => h.ruleSet hn hp i
              (List.mem_append_left _ (List.mem_append_right _ hi))) (hf i)
          refine closed_fill ((h.follows hk).sprout hn hp hsel fun d hd => (by cases hd)) (hg _ rfl)
            (fun i hi => ?_) _
          rcases List.mem_append.1 hi with hi | hi
          · rcases List.mem_cons.1 hi with rfl | hi
            · exact h.ahead _ (Nat.lt_irrefl _)
            · exact hf i hi
          · obtain ⟨d, hd, hi⟩ := List.mem_flatMap.1 hi
            exact hc d (Option.mem_toList.1 hd) i hi
        · exact .refuse h _

theorem closed_selectNamed (h : σ.Closed P) {className : Datum} {generator : Option Datum}
    (hc : ∀ i ∈ className.identities, P i) (hg : ∀ d ∈ generator, ∀ i ∈ d.identities, P i) :
    (σ.selectNamed n className generator).Closed P := by
  unfold selectNamed
  cases hf : Method.kind.fragmentOf σ.appearance className with
  | error e => exact .refuse h e
  | ok fragment =>
    refine closed_selectFrom hn hp h (fun d hd => ?_) (fun i hi => ?_) hg
    · cases hd
      exact hc
    · exact hc i (Method.mem_of_fragmentOf hf hi)

theorem closed_selectKind (h : σ.Closed P) {kind : Datum} {generator : Option Datum}
    (hk : ∀ i ∈ kind.identities, P i) (hg : ∀ d ∈ generator, ∀ i ∈ d.identities, P i) :
    (σ.selectKind n kind generator).Closed P := by
  have hname (i : Identity) (hi : i ∈ (σ.store.optionsOf n).className.identities) : P i :=
    h.optionsOf hn hp i (List.mem_append_left _ (List.mem_append_right _ hi))
  unfold selectKind
  simp only
  cases ha : σ.apply (σ.store.optionsOf n).className kind with
  | gives σ₁ className =>
    obtain ⟨h₁, hc⟩ := closed_of_gives h hname ha
    exact closed_selectNamed (Nat.lt_of_lt_of_le hn (turns_of_gives ha).trail.next_le) hp h₁ hc hg
  | fails e => exact .refuse h e
  | runs body =>
    refine .enter h (fun i hi => ?_) _
    rcases List.mem_append.1 hi with hi | hi
    · rcases List.mem_append.1 hi with hi | hi
      · rcases List.mem_cons.1 hi with rfl | hi
        · exact hp
        · exact hk i hi
      · obtain ⟨d, hd, hi⟩ := List.mem_flatMap.1 hi
        exact hg d (Option.mem_toList.1 hd) i hi
    · exact hname i hi

theorem closed_callMethod (h : σ.Closed P) (name : String) {argument generator : Option Datum}
    (ha : ∀ d ∈ argument, ∀ i ∈ d.identities, P i)
    (hg : ∀ d ∈ generator, ∀ i ∈ d.identities, P i) :
    (σ.callMethod n name argument generator).Closed P := by
  unfold callMethod
  cases Method.named name with
  | error e => exact .refuse h e
  | ok m =>
    simp only
    cases hb : m.bind argument generator with
    | error e => exact .refuse h e
    | ok bound =>
      obtain ⟨argument', generator'⟩ := bound
      have hsub := Method.mem_of_bind hb
      have hg' (d : Datum) (hd : d ∈ generator') : ∀ i ∈ d.identities, P i :=
        (hsub d (.inr hd)).elim (ha d) (hg d)
      have hd (i : Identity) (hi : i ∈ (argument'.getD .null).identities) : P i := by
        cases argument' with
        | none => cases hi
        | some d => exact (hsub d (.inl rfl)).elim (ha d) (hg d) i hi
      simp only
      split
      · exact closed_selectKind hn hp h hd hg'
      · unfold selectBy
        cases hf : m.fragmentOf σ.appearance (argument'.getD .null) with
        | error e => exact .refuse h e
        | ok fragment =>
          exact closed_selectFrom hn hp h nofun
            (fun i hi => hd i (Method.mem_of_fragmentOf hf hi)) hg'

end Selections

/-! ### Building -/

section Building

variable {selector generator : Datum} {options : Table Datum}
variable (hs : ∀ i ∈ selector.identities, P i) (hg : ∀ i ∈ generator.identities, P i)
variable (ho : ∀ e ∈ options.entries, ∀ i ∈ e.2.identities, P i)

theorem holds_givenHost {host d : Datum} (hh : ∀ i ∈ host.identities, P i)
    (hd : d ∈ givenHost host) : ∀ i ∈ d.identities, P i := by
  unfold givenHost at hd
  split at hd
  · cases hd
  · cases hd
    exact hh

include hs hg ho in
theorem closed_buildRoot (h : σ.Closed P) {host : Datum} {purpose : NodeId → Purpose}
    (hh : ∀ i ∈ host.identities, P i)
    (hp : ∀ n i, i ∈ (purpose n).links → i = .node n ∨ i ∈ host.identities) :
    (σ.buildRoot selector host generator options purpose).Closed P := by
  unfold buildRoot
  split
  · cases hm : OptionSet.merge (optionsDatum options) with
    | error e => exact .refuse h e
    | ok o =>
      refine closed_fill (h.plant hs (fun d hd => holds_givenHost hh hd) fun i hi => ?_) hg
        (fun i hi => ?_) _
      · rcases OptionSet.mem_links_of_merge hm hi with ⟨e, he, hi⟩ | rfl
        · exact ho e he i hi
        · exact h.rooted.permanent _ List.mem_cons_self
      · rcases hp _ i hi with rfl | hi
        · exact h.ahead _ (Nat.lt_irrefl _)
        · exact hh i hi
  · exact .refuse h _

include hs hg ho in
theorem closed_build (h : σ.Closed P) {host : Option Datum} (output : Output)
    (hh : ∀ d ∈ host, ∀ i ∈ d.identities, P i) :
    (σ.build selector generator host options output).Closed P := by
  unfold build
  split
  · exact .refuse h _
  · split
    · exact .refuse h _
    · refine closed_buildRoot hs hg (holds_erase ho _) h ?_ fun n i hi =>
        .inl (List.mem_singleton.1 hi)
      cases host with
      | none => exact holds_find? ho _
      | some d => exact hh d rfl

include hs hg ho in
theorem closed_construct (h : σ.Closed P) {host : Datum} {parent : Option NodeId}
    (hp : ∀ p ∈ parent, p < σ.store.next ∧ P (.node p)) (hh : ∀ i ∈ host.identities, P i) :
    (σ.construct selector generator host options parent).Closed P := by
  unfold construct
  cases parent with
  | none => exact closed_buildRoot hs hg ho h hh fun n i hi => .inl (List.mem_singleton.1 hi)
  | some p =>
    simp only
    split
    · obtain ⟨hlt, hp⟩ := hp p rfl
      refine closed_fill (h.sprout hlt hp hs fun d hd => holds_givenHost hh hd) hg (fun i hi => ?_) _
      cases List.mem_singleton.1 hi
      exact h.ahead _ (Nat.lt_irrefl _)
    · exact .refuse h _

/-! ### Style sheets -/

/-- The style sheet that is kept for a host. -/
theorem holds_sheet? (h : σ.Closed P) {id : RegistryId} {host : Identity}
    (hid : id ∈ σ.openRegistries) : ∀ sheet ∈ σ.sheet? id host, P (.node sheet) := by
  intro sheet hs
  unfold sheet? Registry.find? at hs
  obtain ⟨e, he, rfl⟩ := Option.map_eq_some_iff.1 hs
  exact h.alive _ (alive_of_mem_entries hid (List.mem_of_find?_eq_some he))

include hg ho in
theorem closed_obtain (h : σ.Closed P) {registry : RegistryId} (hid : registry ∈ σ.openRegistries)
    {host : Datum} (output : Output) (hh : ∀ i ∈ host.identities, P i) :
    (σ.obtain registry host generator options output).Closed P := by
  unfold obtain
  split
  · exact .refuse h _
  split
  · cases hi : σ.asHost host with
    | error e => exact .refuse h e
    | ok i =>
      simp only
      cases hs : σ.sheet? registry i with
      | some sheet =>
        simp only
        cases hr : σ.record .resettingSheet host with
        | error e => exact .refuse h e
        | ok σ₁ =>
          exact closed_reset (h.follows (.of_record hr)) (holds_sheet? h hid sheet hs) _ _ hg
      | none =>
        simp only
        cases hr : σ.record .buildingSheet host with
        | error e => exact .refuse h e
        | ok σ₁ =>
          have h₁ := h.follows (.of_record hr)
          simp only
          split
          · exact .refuse h₁ _
          · refine closed_buildRoot nofun hg ho h₁ hh fun n j hj => ?_
            rcases List.mem_cons.1 hj with rfl | hj
            · exact .inr (mem_of_asHost hi)
            · exact .inl (List.mem_singleton.1 hj)
  · exact .refuse h _

theorem closed_createWith (h : σ.Closed P) {host first second : Datum}
    (hh : ∀ i ∈ host.identities, P i) (h₁ : ∀ i ∈ first.identities, P i)
    (h₂ : ∀ i ∈ second.identities, P i)
    (ho : ∀ e ∈ options.entries, ∀ i ∈ e.2.identities, P i) :
    (σ.createWith host first second options).Closed P := by
  have hid : firstRegistry ∈ σ.openRegistries := List.mem_cons_self
  unfold createWith
  split
  · split
    · exact closed_obtain h₁ ho h hid _ hh
    · exact .refuse h _
  · split
    · exact closed_obtain h₂ ho h hid _ h₁
    · split
      · exact closed_build nofun h₁ ho h _ nofun
      · exact .refuse h _

include ho in
theorem closed_create (h : σ.Closed P) {arguments : List Datum} {host : Datum}
    (ha : ∀ d ∈ arguments, ∀ i ∈ d.identities, P i) (hh : ∀ i ∈ host.identities, P i) :
    (σ.create arguments host options).Closed P := by
  unfold create
  split
  · exact .refuse h _
  have hh' : ∀ i ∈ (if host.isNull then (options.find? hostOption).getD .null
      else host).identities, P i := by
    split
    · exact holds_find? ho _
    · exact hh
  have ho' := holds_erase ho hostOption
  rcases arguments with _ | ⟨first, _ | ⟨second, _ | ⟨third, rest⟩⟩⟩
  · exact .refuse h _
  · have alone : ∀ i ∈ Datum.null.identities, P i := nofun
    exact closed_createWith h hh' (ha first List.mem_cons_self) alone ho'
  · exact closed_createWith h hh' (ha first List.mem_cons_self)
      (ha second (List.mem_cons_of_mem _ List.mem_cons_self)) ho'
  · exact .refuse h _

end Building

/-! ### Reading -/

theorem closed_probe (hn : n < σ.store.next) (hp : P (.node n)) (h : σ.Closed P)
    (listed : List (String × Picture)) (names : List String) :
    (σ.probe n listed names).Closed P := by
  induction names generalizing σ listed with
  | nil =>
    unfold probe
    exact .plain h fun a ha => by
      cases ha
      rfl
  | cons name rest ih =>
    have hv : ∀ i ∈ (((σ.store.optionsOf n).get? name).getD .null).identities, P i :=
      holds_getD fun _ hd i hi => h.optionsOf hn hp i (OptionSet.mem_links_of_get? hd hi)
    unfold probe
    simp only
    split
    · cases ha : σ.apply (((σ.store.optionsOf n).get? name).getD .null) OptionSet.sample with
      | gives σ₁ d =>
        have h₁ := (closed_of_gives h hv ha).1
        simp only
        cases d.picture σ₁.views with
        | error e => exact .refuse h₁ e
        | ok given =>
          exact ih (Nat.lt_of_lt_of_le hn (turns_of_gives ha).trail.next_le) h₁ _
      | fails e => exact .refuse h e
      | runs body =>
        have hlinks : ∀ i ∈ Purpose.links (.probe n _ listed name rest), P i :=
          List.forall_mem_cons.2 ⟨hp, hv⟩
        exact .enter h hlinks _
    · cases (((σ.store.optionsOf n).get? name).getD .null).picture σ.views with
      | error e => exact .refuse h e
      | ok p => exact ih hn h _

/-- What can be referred to as an object refers to nothing else. -/
theorem eq_of_mem_identities {d : Datum} {i j : Identity} (h : d.identity? = some j)
    (hi : i ∈ d.identities) : j = i := by
  cases d <;> simp_all [Datum.identity?, Datum.identities]

/-- The parent that a rule set has is alive. -/
theorem Closed.parent? (h : σ.Closed P) {p : NodeId} (hp : σ.parent? n = some p) : P (.node p) :=
  h.alive _ (Option.filter_eq_some_iff.1 hp).2

/-- The rule sets above one that has the property have it as well. -/
theorem Closed.above (h : σ.Closed P) (hp : P (.node n)) {m : NodeId} (ha : σ.Above n m) :
    P (.node m) := by
  induction ha with
  | refl => exact hp
  | tail _ hm _ => exact h.parent? hm

/-- The host of a rule set is alive, or a plain value that is kept. -/
theorem Closed.hostOf (h : σ.Closed P) (hn : n < σ.store.next) (hp : P (.node n)) :
    ∀ i ∈ (σ.hostOf n).identities, P i := by
  unfold Session.hostOf
  cases hf : (σ.chain n).findSome? fun m => (σ.store.get m).host with
  | none => nofun
  | some d =>
    obtain ⟨m, hm, hd⟩ := List.exists_of_findSome?_eq_some hf
    have ha := mem_chain_iff.1 hm
    intro i hi
    change i ∈ (σ.followHost d).identities at hi
    unfold followHost at hi
    cases hd' : d.identity? with
    | none =>
      simp only [hd'] at hi
      refine h.ruleSet (Nat.lt_of_le_of_lt ha.le hn) (h.above hp ha) i
        (List.mem_append_right _ (List.mem_flatMap.2 ⟨d, by rw [hd]; exact List.mem_cons_self, ?_⟩))
      unfold RuleSet.hostLinks
      rw [hd']
      exact hi
    | some j =>
      simp only [hd'] at hi
      split at hi
      · rename_i halive
        exact eq_of_mem_identities hd' hi ▸ h.alive j halive
      · cases hi

/-- The children of a rule set that has a property have it too. -/
theorem Closed.children (h : σ.Closed P) (hp : P (.node n)) :
    ∀ c ∈ (σ.store.get n).children, P (.node c) := by
  intro c hc
  by_cases hn : n < σ.store.next
  · exact h.ruleSet hn hp _ (List.mem_append_left _ (List.mem_append_left _ (List.mem_map_of_mem hc)))
  · rw [Store.get_of_next_le (Nat.not_lt.1 hn)] at hc
    cases hc

theorem closed_readNode (hn : n < σ.store.next) (hp : P (.node n)) (h : σ.Closed P)
    (facet : Facet) : (σ.readNode n facet).Closed P := by
  have node {m : NodeId} (hm : P (.node m)) : ∀ i ∈ (Datum.node m).identities, P i :=
    List.forall_mem_cons.2 ⟨hm, nofun⟩
  have mapped {α : Type} {x : Except Error α} {f : α → Result}
      (hf : ∀ a, (f a).datum.identities = []) : (Start.answer σ (x.map f)).Closed P :=
    .plain h fun a ha => by
      cases x with
      | error e => cases ha
      | ok x =>
        cases ha
        exact hf x
  unfold readNode
  cases facet with
  | selector =>
    refine .done h fun a ha i hi => ?_
    cases ha
    exact h.ruleSet hn hp i (List.mem_append_left _ (List.mem_append_right _ hi))
  | children =>
    refine .done h fun a ha i hi => ?_
    cases ha
    obtain ⟨c, hc, rfl⟩ := List.mem_map.1 hi
    exact h.children hp c hc
  | parent =>
    refine .done h fun a ha => ?_
    cases ha
    cases hq : σ.parent? n with
    | none => nofun
    | some q => exact node (h.parent? hq)
  | host =>
    refine .done h fun a ha => ?_
    cases ha
    exact h.hostOf hn hp
  | itself =>
    refine .done h fun a ha => ?_
    cases ha
    exact node hp
  | child index =>
    simp only
    split
    · rename_i c hc
      refine .done h fun a ha => ?_
      cases ha
      refine node (h.children hp c ?_)
      unfold childAt at hc
      split at hc
      · exact List.mem_of_getElem? hc
      · split at hc
        · exact List.mem_of_getElem? hc
        · cases hc
    · exact .refuse h _
  | options => exact closed_probe hn hp h _ _
  | text | scope =>
    refine .plain h fun a ha => ?_
    cases ha
    rfl
  | incomplete | dump | css | spelling | label => exact mapped fun _ => rfl
  | blocks =>
    refine mapped fun texts => ?_
    show Datum.itemIdentities (texts.map .text) = []
    induction texts with
    | nil => rfl
    | cons t rest ih => exact ih

theorem closed_read (h : σ.Closed P) {subject : Datum}
    (hn : ∀ n, subject = .node n → n < σ.store.next) (hs : ∀ i ∈ subject.identities, P i)
    (facet : Facet) : (σ.read subject facet).Closed P := by
  have plain {x : Except Error String} : (Start.answer σ (x.map .text)).Closed P :=
    .plain h fun a ha => by
      cases x with
      | error e => cases ha
      | ok t =>
        cases ha
        rfl
  unfold read
  split
  · exact closed_readNode (hn _ rfl) (hs _ List.mem_cons_self) h facet
  · split
    · exact .done h fun a ha => by
        cases ha
        exact hs
    · exact plain
    · exact plain
    · exact .refuse h _

/-! ### Iterations -/

/-- What an iteration holds on to, it shares with what comes after it. -/
theorem holds_next (h : σ.Closed P) {it : Iteration} (hi : ∀ i ∈ it.identities, P i) :
    ∀ i ∈ (it.next σ.store σ.appearance).2.identities, P i := by
  have hended : ∀ i ∈ Iteration.ended.identities, P i := fun i hi => absurd hi List.not_mem_nil
  cases it with
  | ended => exact hi
  | items source rest =>
    cases rest with
    | nil => exact hended
    | cons first rest => exact hi
  | blocks c =>
    cases hc : c.next σ.store σ.appearance with
    | error e =>
      simp only [Iteration.next, hc]
      exact hended
    | ok p =>
      obtain ⟨block, c'⟩ := p
      cases block with
      | none =>
        simp only [Iteration.next, hc]
        exact hended
      | some block =>
        simp only [Iteration.next, hc]
        intro i hi'
        obtain ⟨n, hn, rfl⟩ := List.mem_map.1 hi'
        exact Cursor.nodes_next (fun _ => h.children) (fun n hn => hi _ (List.mem_map_of_mem hn)) hc
          n hn

theorem holds_take (h : σ.Closed P) {it : Iteration} (hi : ∀ i ∈ it.identities, P i)
    (count : Nat) : ∀ i ∈ (it.take σ.store σ.appearance count).2.identities, P i := by
  induction count generalizing it with
  | zero => exact hi
  | succ count ih =>
    have hnext := holds_next h hi
    unfold Iteration.take
    generalize it.next σ.store σ.appearance = p at hnext
    obtain ⟨r, it'⟩ := p
    cases r with
    | error e => exact hnext
    | ok d => exact ih hnext

theorem closed_iterate (h : σ.Closed P) {subject : Datum} (hs : ∀ i ∈ subject.identities, P i)
    (walk : Walk) (iteration : String) : (σ.iterate subject walk iteration).Closed P := by
  unfold iterate
  simp only
  split
  · exact .refuse h _
  · rename_i it hit
    exact .nothing (h.iterate iteration ((begun_cases hit).1 ▸ hs))

theorem closed_advance (h : σ.Closed P) (hg : σ.Grounded) (iteration : String) (count : Nat) :
    (σ.advance iteration count).Closed P := by
  unfold advance
  split
  · exact .refuse h _
  · rename_i it hit
    have hit := mem_values_of_find? hit
    have hi := h.rooted.iterations it hit
    obtain ⟨-, -, hyield⟩ := held_take (hg.left it hit) σ.store σ.appearance count
    have htake := holds_take h hi count
    generalize it.take σ.store σ.appearance count = p at hyield htake
    obtain ⟨r, it'⟩ := p
    refine .done (h.iterate iteration htake) fun a ha i hi' => ?_
    cases r with
    | error e => cases ha
    | ok ds =>
      cases ha
      change i ∈ Datum.itemIdentities ds at hi'
      rw [Datum.itemIdentities_eq_flatMap] at hi'
      obtain ⟨d, hd, hi'⟩ := List.mem_flatMap.1 hi'
      rcases hyield ds rfl d hd with hd | hnil
      · exact hi i (hg.left it hit d hd hi')
      · rw [hnil] at hi'
        cases hi'

/-! ### Statements -/

section Statements

theorem closed_onNode (h : σ.Closed P) (hg : σ.Grounded) {t : Target} {act : NodeId → Start}
    (ha : ∀ n < σ.store.next, P (.node n) → (act n).Closed P) : (σ.onNode t act).Closed P := by
  have ht := h.target t
  unfold onNode
  split
  · rename_i n hn
    rw [hn] at ht
    exact ha n (hg.announced_target hn).lt_next (ht _ List.mem_cons_self)
  · exact .refuse h _

theorem closed_changeStore (h : σ.Closed P) {store : Except Error Store} {result : Store → Result}
    (hs : ∀ s, store = .ok s → ({ σ with store := s } : Session).Closed P)
    (hr : ∀ s, (result s).datum.identities = []) : (σ.changeStore store result).Closed P := by
  unfold changeStore
  cases store with
  | error e => exact .refuse h e
  | ok s =>
    refine .plain (hs s rfl) fun a ha => ?_
    cases ha
    exact hr s

theorem closed_assign (h : σ.Closed P) (n : NodeId) (properties : Datum) (keywords : Table Datum) :
    (σ.changeStore (σ.store.assign σ.appearance n properties keywords)
      fun s => .written (s.get n).text).Closed P := by
  unfold Store.assign
  cases declarationsOf σ.appearance (some properties) keywords with
  | error e => exact .refuse h e
  | ok lines => exact closed_changeStore h (fun s hs => h.write hs) fun _ => rfl

theorem closed_define (h : σ.Closed P) (n : NodeId) (name : String) (value : Datum) :
    (σ.changeStore (σ.store.define σ.appearance n name value)
      fun s => .scope (s.get n).scope.entries).Closed P := by
  refine closed_changeStore h (fun s hs => ?_) fun _ => rfl
  unfold Store.define at hs
  cases hv : propertyValue σ.appearance value with
  | error e =>
    rw [hv] at hs
    cases hs
  | ok text =>
    rw [hv] at hs
    cases hs
    exact h.define n name text

theorem mem_openRegistries_withRegistry (σ : Session) (name : String) :
    (σ.withRegistry name).2 ∈ (σ.withRegistry name).1.openRegistries := by
  have hmem : (σ.withRegistry name).2 ∈ (σ.withRegistry name).1.registryNames.values := by
    unfold withRegistry
    split
    · rename_i id hid
      exact mem_values_of_find? hid
    · exact mem_values_of_find? (Table.find?_insert_self ..)
  exact List.mem_append_left _ (List.mem_cons_of_mem _ hmem)

/-- Looking up a registry by name, which may make one. -/
theorem closed_onRegistry (h : σ.Closed P) {name : String} (act : Session → RegistryId → Start)
    (ha : ∀ (σ₁ : Session) id, σ₁.Closed P → id ∈ σ₁.openRegistries → (act σ₁ id).Closed P) :
    (σ.onRegistry name act).Closed P :=
  ha _ _ (h.withRegistry name) (σ.mem_openRegistries_withRegistry name)

theorem holds_node? {sheet : Option NodeId} (h : ∀ n ∈ sheet, P (.node n)) :
    ∀ i ∈ (Result.node? sheet).datum.identities, P i := by
  cases sheet with
  | none => nofun
  | some n => exact List.forall_mem_cons.2 ⟨h n rfl, nofun⟩

theorem closed_release (h : σ.Closed P) {id : RegistryId} (hid : id ∈ σ.openRegistries)
    (host : Datum) : (σ.release id host).Closed P := by
  unfold release
  cases hr : σ.record .releasingSheet host with
  | error e => exact .refuse h e
  | ok σ₁ =>
    have hf := Session.Follows.of_record hr
    have h₁ := h.follows hf
    have hid₁ : id ∈ σ₁.openRegistries := by
      obtain ⟨_, _, _, _, rfl⟩ := hf.beside
      exact hid
    simp only
    split
    · split
      · exact .nothing h₁
      · exact .refuse h₁ _
    · exact .refuse h₁ _
    · refine .done (h₁.setEntries id fun e hm => .inl ?_) fun a ha => ?_
      · exact (List.mem_filter.1 ((Registry.erase_sublist _ _).subset hm)).1
      · cases ha
        exact holds_node? (holds_sheet? h₁ hid₁)

theorem closed_setOption (h : σ.Closed P) (n : NodeId) (name : String) {value : Datum}
    (hv : ∀ i ∈ value.identities, P i) :
    (σ.changeStore (.ok (σ.store.setOption n name value)) fun _ => .nothing).Closed P := by
  refine closed_changeStore h (fun s hs => ?_) fun _ => rfl
  cases hs
  exact h.setOption n name hv

/-- What a handle names as the parent of a construction was made, and has the property. -/
theorem Closed.of_parent (h : σ.Closed P) (hg : σ.Grounded) {parent : Option String} {p : NodeId}
    (hp : parent.bind σ.handles.find? = some p) : p < σ.store.next ∧ P (.node p) := by
  obtain ⟨handle, -, hf⟩ := Option.bind_eq_some_iff.1 hp
  exact ⟨(hg.of_parent hp).lt_next, h.rooted.handles p (mem_values_of_find? hf)⟩

theorem closed_lookup (h : σ.Closed P) {id : RegistryId} (hid : id ∈ σ.openRegistries)
    (host : Datum) : (Start.answer σ (σ.lookup id host)).Closed P := by
  refine .done h fun a ha => ?_
  unfold lookup at ha
  cases hi : σ.asHost host with
  | error e =>
    rw [hi] at ha
    cases ha
  | ok i =>
    rw [hi] at ha
    cases ha
    exact holds_node? (holds_sheet? h hid)

theorem closed_obtain_ofList (h : σ.Closed P) {id : RegistryId} (hid : id ∈ σ.openRegistries)
    {host generator : Datum} {options : List (String × Datum)} (output : Output)
    (ha : ∀ d ∈ host :: generator :: options.map Prod.snd, ∀ i ∈ d.identities, P i) :
    (σ.obtain id host generator (.ofList options) output).Closed P :=
  closed_obtain (ha _ (List.mem_cons_of_mem _ List.mem_cons_self))
    (holds_ofList fun d hd => ha d (List.mem_cons_of_mem _ (List.mem_cons_of_mem _ hd))) h hid output
    (ha _ List.mem_cons_self)

theorem closed_begin (h : σ.Closed P) (hg : σ.Grounded) {action : Action Datum (List Stmt)}
    (ha : ∀ i ∈ action.arguments.flatMap Datum.identities, P i) : (σ.begin action).Closed P := by
  have arg {d : Datum} (hd : d ∈ action.arguments) : ∀ i ∈ d.identities, P i := fun i hi =>
    ha i (List.mem_flatMap.2 ⟨d, hd, hi⟩)
  cases action with
  | select t method argument generator =>
    exact closed_onNode h hg fun n hn hp => closed_callMethod hn hp h method
      (fun d hd => arg (Action.mem_arguments_select.2 (.inl hd)))
      fun d hd => arg (Action.mem_arguments_select.2 (.inr hd))
  | write t text =>
    exact closed_onNode h hg fun n _ _ => closed_changeStore h (fun s hs => h.write hs) fun _ => rfl
  | assign t properties keywords =>
    exact closed_onNode h hg fun n _ _ => closed_assign h n (properties.getD .null) (.ofList keywords)
  | define t name value => exact closed_onNode h hg fun n _ _ => closed_define h n name value
  | setScope t name value => exact closed_onNode h hg fun n _ _ => .refuse h _
  | check t name => exact closed_onNode h hg fun n _ _ => .plain h (unlinked_bool _)
  | var t name => exact closed_onNode h hg fun n _ _ => .plain h (unlinked_text _)
  | reset t generator =>
    exact closed_onNode h hg fun n _ hp => closed_reset h hp none .node (arg List.mem_cons_self)
  | read t facet =>
    exact closed_read h (fun n hn => (hg.announced_target hn).lt_next) (h.target t) facet
  | setOption t name value =>
    exact closed_onNode h hg fun n _ _ => closed_setOption h n name (arg List.mem_cons_self)
  | iterate t walk iteration => exact closed_iterate h (h.target t) walk iteration
  | advance iteration count => exact closed_advance h hg iteration count
  | same a b => exact .plain h (unlinked_bool _)
  | drop handle => exact .nothing (h.drop handle)
  | build selector generator host options =>
    have arg' {d : Datum} (hd : d = selector ∨ d = generator ∨ host = some d ∨
        d ∈ options.map Prod.snd) : ∀ i ∈ d.identities, P i := arg (Action.mem_arguments_build.2 hd)
    exact closed_build (arg' (.inl rfl)) (arg' (.inr (.inl rfl)))
      (holds_ofList fun d hd => arg' (.inr (.inr (.inr hd)))) h _
      fun d hd => arg' (.inr (.inr (.inl hd)))
  | construct selector generator host options parent =>
    have arg' {d : Datum} (hd : d = selector ∨ d = generator ∨ host = some d ∨
        d ∈ options.map Prod.snd) : ∀ i ∈ d.identities, P i :=
      arg (Action.mem_arguments_construct.2 hd)
    exact closed_construct (arg' (.inl rfl)) (arg' (.inr (.inl rfl)))
      (holds_ofList fun d hd => arg' (.inr (.inr (.inr hd)))) h (fun p hp => h.of_parent hg hp)
      (holds_getD fun d hd => arg' (.inr (.inr (.inl hd))))
  | create arguments host options =>
    have arg' {d : Datum} (hd : d ∈ arguments ∨ host = some d ∨ d ∈ options.map Prod.snd) :
        ∀ i ∈ d.identities, P i := arg (Action.mem_arguments_create.2 hd)
    exact closed_create (holds_ofList fun d hd => arg' (.inr (.inr hd))) h
      (fun d hd => arg' (.inl hd)) (holds_getD fun d hd => arg' (.inr (.inl hd)))
  | makeHost name kind =>
    exact .nothing (h.makeHost name fun key hk => arg (Option.mem_toList.2 hk))
  | dropHost name => exact .nothing (h.dropHost name)
  | makeRegistry name => exact .nothing (h.makeRegistry name)
  | lookup name host =>
    exact closed_onRegistry h (fun σ id => .answer σ (σ.lookup id host)) fun σ₁ id h₁ hid =>
      closed_lookup h₁ hid host
  | release name host =>
    exact closed_onRegistry h (fun σ id => σ.release id host) fun σ₁ id h₁ hid =>
      closed_release h₁ hid host
  | contains name host =>
    exact closed_onRegistry h (fun σ id => .answer σ (σ.containsHost id host)) fun σ₁ id h₁ _ =>
      .plain h₁ (σ₁.unlinked_containsHost id host)
  | size name =>
    exact closed_onRegistry h (fun σ id => .answer σ (.ok (.value (.int (σ.entries id).length))))
      fun σ₁ id h₁ _ => .plain h₁ (unlinked_int _)
  | labelRegistry name =>
    exact closed_onRegistry h (fun σ id => .answer σ (.ok (.text (σ.registryLabel id))))
      fun σ₁ id h₁ _ => .plain h₁ (unlinked_text (.ok _))
  | clear name =>
    exact closed_onRegistry h (fun σ id => .done (σ.setEntries id []) (.ok .nothing))
      fun σ₁ id h₁ _ => .nothing (h₁.setEntries id nofun)
  | obtain name host generator options =>
    exact closed_onRegistry h (fun σ id => σ.obtain id host generator (.ofList options) .node)
      fun σ₁ id h₁ hid => closed_obtain_ofList h₁ hid .node fun d hd => arg hd
  | render name host generator options =>
    exact closed_onRegistry h (fun σ id => σ.obtain id host generator (.ofList options) .css)
      fun σ₁ id h₁ hid => closed_obtain_ofList h₁ hid .css fun d hd => arg hd
  | raise message => exact .refuse h _
  | attempt body =>
    have hp : ∀ i ∈ Purpose.links .attempt, P i := nofun
    exact .enter h hp body

theorem closed_finish (h : σ.Closed P) {purpose : Purpose}
    (hc : σ.Covers purpose.links) (hp : ∀ i ∈ purpose.links, P i) :
    (σ.finish purpose).Closed P := by
  cases purpose with
  | select child fragment className =>
    refine .done (h.attach (hp (.node child) List.mem_cons_self)) fun a ha i hi => ?_
    cases ha
    exact hp i (List.mem_append_left _ (List.mem_cons_of_mem _ hi))
  | build n out => exact .done h (σ.holds_output (hp _ List.mem_cons_self) out)
  | reset n registry out => exact .done h (σ.holds_output (hp _ List.mem_cons_self) out)
  | register id host n out =>
    have hn : P (.node n) := hp _ (List.mem_cons_of_mem _ List.mem_cons_self)
    refine .done (h.setEntries id fun e hm => ?_) ((σ.putSheet id host n).holds_output hn out)
    rcases Registry.mem_put_cases hm with hm | ⟨hs, -⟩
    · exact .inl (List.mem_filter.1 hm).1
    · exact .inr (hs ▸ hn)
  | name n kind generator callee =>
    have hn : σ.Announced n := hc (.node n) List.mem_cons_self
    show (σ.selectNamed n .null generator).Closed P
    refine closed_selectNamed hn.lt_next (hp _ List.mem_cons_self) h nofun fun d hd i hi => hp i ?_
    exact List.mem_append_left _ (List.mem_append_right _
      (List.mem_flatMap.2 ⟨d, Option.mem_toList.2 hd, hi⟩))
  | probe n callee listed name rest =>
    have hn : σ.Announced n := hc (.node n) List.mem_cons_self
    exact closed_probe hn.lt_next (hp _ List.mem_cons_self) h _ _
  | attempt =>
    refine .plain h fun a ha => ?_
    cases ha
    rfl

end Statements

end Session

end RuleTree
