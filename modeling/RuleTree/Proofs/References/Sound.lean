import RuleTree.Proofs.Rebuilding.Tables
import RuleTree.Proofs.References.Grounded

/-!
# Statements refer to what was made

* `Start.Sound`: a start that leads to a later session in which nothing refers to what was never
  made, as nothing does in what is answered or waited for;
* one lemma for each operation, from calling a value to keeping a style sheet;
* `Session.holds_ofList`, `Session.holds_getD` and the like: what holds of arguments holds of what
  becomes of them;
* `Session.sound_begin`, `Session.sound_finish`: all statements are such starts.
-/

namespace RuleTree

/-! ### Answers that refer to nothing -/

/-- Being no answer that refers to anything. -/
def Unlinked (r : Except Error Result) : Prop := ∀ a, r = .ok a → a.datum.identities = []

theorem unlinked_bool (b : Bool) : Unlinked (.ok (.bool b)) := by
  rintro _ ⟨⟩
  rfl

theorem unlinked_int (n : Int) : Unlinked (.ok (.value (.int n))) := by
  rintro _ ⟨⟩
  rfl

theorem unlinked_text (x : Except Error String) : Unlinked (x.map .text) := by
  intro a ha
  cases x <;> cases ha
  rfl

/-- Whether a host has a style sheet. -/
theorem Session.unlinked_containsHost (σ : Session) (id : RegistryId) (host : Datum) :
    Unlinked (σ.containsHost id host) := by
  intro a ha
  unfold containsHost at ha
  split at ha <;> cases ha <;> rfl

/-! ### Statements that are sound -/

/-- Leading to a later session in which nothing refers to what was never made, as nothing does in
what is answered or waited for. -/
structure Start.Sound (σ : Session) (st : Start) : Prop where
  earlier : σ.Earlier st.session
  grounded : st.session.Grounded
  result : ∀ r, st.result? = some (.ok r) → st.session.Covers r.datum.identities
  purpose : ∀ σ' purpose body, st = .enter σ' purpose body → σ'.Covers purpose.links

namespace Start.Sound

variable {σ σ₁ : Session}

theorem done (he : σ.Earlier σ₁) (hg : σ₁.Grounded) {r : Except Error Result}
    (hr : ∀ a, r = .ok a → σ₁.Covers a.datum.identities) : (Start.done σ₁ r).Sound σ :=
  ⟨he, hg, fun a ha => hr a (Option.some.inj ha), nofun⟩

theorem answer (hg : σ.Grounded) {r : Except Error Result}
    (hr : ∀ a, r = .ok a → σ.Covers a.datum.identities) : (Start.answer σ r).Sound σ :=
  .done (.refl σ) hg hr

theorem refuse (hg : σ.Grounded) (e : Error) : (Start.refuse σ e).Sound σ := .answer hg nofun

theorem enter (he : σ.Earlier σ₁) (hg : σ₁.Grounded) {purpose : Purpose}
    (hp : σ₁.Covers purpose.links) (body : List Stmt) : (Start.enter σ₁ purpose body).Sound σ :=
  ⟨he, hg, nofun, fun _ _ _ h => by
    cases h
    exact hp⟩

/-- What comes before leads to a later session as well. -/
theorem after {st : Start} (he : σ.Earlier σ₁) (h : st.Sound σ₁) : st.Sound σ :=
  { h with earlier := he.trans h.earlier }

/-- A change that answers nothing is sound if it leaves a grounded session. -/
theorem nothing (he : σ.Earlier σ₁) (hg : σ₁.Grounded) :
    (Start.done σ₁ (.ok .nothing)).Sound σ :=
  .done he hg fun a ha => by
    cases ha
    exact .nil σ₁

/-- An answer that refers to nothing is sound. -/
theorem plain (hg : σ.Grounded) {r : Except Error Result} (hr : Unlinked r) :
    (Start.answer σ r).Sound σ :=
  .answer hg fun a ha => by
    rw [hr a ha]
    exact .nil σ

end Start.Sound

namespace Session

variable {σ : Session}

/-! ### Generators -/

theorem stamps_le_of_gives {callee subject d : Datum} {σ₁ : Session}
    (h : σ.apply callee subject = .gives σ₁ d) : σ.stamps ≤ σ₁.stamps := by
  unfold apply at h
  split at h
  · cases h
  · split at h
    · split at h
      · split at h
        · cases h
          exact Nat.le_refl _
        · cases h
      · cases h
    · cases h
      exact Nat.le_refl _
    · cases h
  · split at h
    · rename_i hc
      cases h
      exact (keeps_className _ _).stamps_le hc
    · cases h
  · cases h
  · cases h

theorem grounded_of_gives (h : σ.Grounded) {callee subject d : Datum} {σ₁ : Session}
    (hc : σ.Covers callee.identities) (hg : σ.apply callee subject = .gives σ₁ d) :
    σ.Earlier σ₁ ∧ σ₁.Grounded ∧ σ₁.Covers d.identities := by
  have ht := (turns_of_gives hg).trail
  refine ⟨.of_amends (amends_of_gives hg) ht.next_le (stamps_le_of_gives hg)
    fun n hn => (ht.madeAs hn).selector, ?_⟩
  unfold apply at hg
  split at hg
  · cases hg
  · split at hg
    · split at hg
      · split at hg
        · rename_i hw
          cases hg
          exact ⟨h.write hw, .nil _⟩
        · cases hg
      · cases hg
    · cases hg
      exact ⟨h, hc⟩
    · cases hg
  · split at hg
    · rename_i hd
      cases hg
      obtain ⟨hf, hcov⟩ := h.names.covers (tells_className (.refl σ) _ _) hd
      exact ⟨h.follows hf, hcov⟩
    · cases hg
  · cases hg
  · cases hg

theorem sound_launch {σ₁ : Session} (he : σ.Earlier σ₁) (h : σ₁.Grounded) {purpose : Purpose}
    {generator : Datum} (hg : σ₁.Covers generator.identities) (hp : σ₁.Covers purpose.links)
    (n : NodeId) : (σ₁.launch purpose generator n).Sound σ := by
  unfold launch
  split
  · rename_i ha
    obtain ⟨he', h', -⟩ := grounded_of_gives h hg ha
    exact .enter (he.trans he') h' (hp.later he') _
  · exact .done he h nofun
  · exact .enter he h hp _

/-- A new rule set is filled if it can be announced, and given up at once if it cannot. -/
theorem sound_fill {store : Store} (h : ({ σ with store } : Session).Grounded)
    (he : σ.Earlier { σ with store }) {purpose : Purpose} {generator : Datum}
    (hg : σ.Covers generator.identities) {n : NodeId} (hn : n < store.next)
    (hp : ∀ i ∈ purpose.links, i = .node n ∨ σ.Has i) :
    (σ.fill store n purpose generator).Sound σ := by
  unfold fill
  simp only
  cases hr : { σ with store }.record .generating (store.get n).selector with
  | error e => exact .done he h nofun
  | ok σ₁ =>
    have hb := Session.Follows.of_record hr
    have he₁ := he.trans (Earlier.of_follows hb)
    refine sound_launch he₁ (h.follows hb) (hg.later he₁) (fun i hi => ?_) _
    rcases hp i hi with rfl | hi
    · exact h.announced_of_record hn hr
    · exact he₁.has hi

theorem sound_reset (h : σ.Grounded) {n : NodeId} (hn : σ.Announced n)
    (registry : Option RegistryId) (output : Output) {generator : Datum}
    (hg : σ.Covers generator.identities) : (σ.reset n registry output generator).Sound σ := by
  unfold reset
  split
  · have he := Earlier.clearForReset σ n
    have h' := h.clearForReset n
    simp only
    cases hr : { σ with store := σ.store.clearForReset n }.record .resetting
        ((σ.store.clearForReset n).get n).selector with
    | error e => exact .done he h' nofun
    | ok σ₁ =>
      have hb := Session.Follows.of_record hr
      have he₁ := he.trans (.of_follows hb)
      refine sound_launch he₁ (h'.follows hb) (hg.later he₁) (fun i hi => ?_) _
      cases List.mem_singleton.1 hi
      exact he₁.has (i := .node n) hn
  · exact .refuse h _

/-! ### Selections -/

theorem sound_selectFrom (h : σ.Grounded) {n : NodeId} (hn : σ.Announced n) {className : Option Datum}
    {fragment : Datum} {generator : Option Datum}
    (hc : ∀ d ∈ className, σ.Covers d.identities) (hf : σ.Covers fragment.identities)
    (hg : ∀ d ∈ generator, σ.Covers d.identities) :
    (σ.selectFrom n className fragment generator).Sound σ := by
  have same : (Start.answer σ (.ok (.value fragment))).Sound σ := .answer h fun a ha => by
    cases ha
    exact hf
  unfold selectFrom
  cases generator with
  | none => exact same
  | some generator =>
    simp only
    split
    · exact same
    · cases hs : (σ.store.get n).selector.plus σ.stamps fragment with
      | error e => exact .refuse h e
      | ok selector =>
        simp only
        split
        · have hk : σ.Follows { σ with stamps := σ.stamps + 1 } := ⟨.of_log σ _ rfl, Nat.le_succ _⟩
          have hlater := Earlier.of_follows hk
          have hsel : σ.Covers selector.identities := fun i hi =>
            (Datum.mem_of_plus hs hi).elim (h.selector n i) (hf i)
          have he : ({ σ with stamps := σ.stamps + 1 } : Session).Earlier { σ with
              stamps := σ.stamps + 1, store := σ.store.sprout n selector none } :=
            .of_trail (.single (.sprouted n selector none none nofun))
          refine .after hlater (sound_fill
            ((h.follows hk).sprout hn (hsel.later hlater) fun d hd => by cases hd)
            he ((hg _ rfl).later hlater) ?_ fun i hi => ?_)
          · rw [Store.next_sprout]
            exact Nat.lt_succ_self _
          · rcases List.mem_append.1 hi with hi | hi
            · rcases List.mem_cons.1 hi with rfl | hi
              · exact .inl rfl
              · exact .inr (hlater.has (hf i hi))
            · obtain ⟨d, hd, hi⟩ := List.mem_flatMap.1 hi
              exact .inr (hlater.has (hc d (Option.mem_toList.1 hd) i hi))
        · exact .refuse h _

theorem sound_selectNamed (h : σ.Grounded) {n : NodeId} (hn : σ.Announced n) {className : Datum}
    {generator : Option Datum} (hc : σ.Covers className.identities)
    (hg : ∀ d ∈ generator, σ.Covers d.identities) :
    (σ.selectNamed n className generator).Sound σ := by
  unfold selectNamed
  cases hf : Method.kind.fragmentOf σ.appearance className with
  | error e => exact .refuse h e
  | ok fragment =>
    refine sound_selectFrom h hn (fun d hd => ?_) (fun i hi => ?_) hg
    · cases hd
      exact hc
    · exact hc i (Method.mem_of_fragmentOf hf hi)

theorem sound_selectKind (h : σ.Grounded) {n : NodeId} (hn : σ.Announced n) {kind : Datum}
    {generator : Option Datum} (hk : σ.Covers kind.identities)
    (hg : ∀ d ∈ generator, σ.Covers d.identities) :
    (σ.selectKind n kind generator).Sound σ := by
  unfold selectKind
  simp only
  cases ha : σ.apply (σ.store.optionsOf n).className kind with
  | gives σ₁ className =>
    obtain ⟨he, h₁, hc⟩ := grounded_of_gives h (h.className n) ha
    exact .after he (sound_selectNamed h₁ (he.announced hn) hc fun d hd => (hg d hd).later he)
  | fails e => exact .refuse h e
  | runs body =>
    refine .enter (.refl σ) h
      (((Covers.cons (show σ.Has (.node n) from hn) hk).append fun i hi => ?_).append
        (h.className n)) _
    obtain ⟨d, hd, hi⟩ := List.mem_flatMap.1 hi
    exact hg d (Option.mem_toList.1 hd) i hi

theorem sound_callMethod (h : σ.Grounded) {n : NodeId} (hn : σ.Announced n) (name : String)
    {argument generator : Option Datum} (ha : ∀ d ∈ argument, σ.Covers d.identities)
    (hg : ∀ d ∈ generator, σ.Covers d.identities) :
    (σ.callMethod n name argument generator).Sound σ := by
  unfold callMethod
  cases Method.named name with
  | error e => exact .refuse h e
  | ok m =>
    simp only
    cases hb : m.bind argument generator with
    | error e => exact .refuse h e
    | ok bound =>
      obtain ⟨argument', generator'⟩ := bound
      have hbound : (∀ d ∈ argument', σ.Covers d.identities) ∧
          ∀ d ∈ generator', σ.Covers d.identities := by
        have hsub := Method.mem_of_bind hb
        exact ⟨fun d hd => (hsub d (.inl hd)).elim (ha d) (hg d),
          fun d hd => (hsub d (.inr hd)).elim (ha d) (hg d)⟩
      have hd : σ.Covers (argument'.getD .null).identities := by
        cases argument' with
        | none => exact .nil σ
        | some d => exact hbound.1 d rfl
      simp only
      split
      · exact sound_selectKind h hn hd hbound.2
      · unfold selectBy
        cases hf : m.fragmentOf σ.appearance (argument'.getD .null) with
        | error e => exact .refuse h e
        | ok fragment =>
          exact sound_selectFrom h hn (fun d hd => by cases hd)
            (fun i hi => hd i (Method.mem_of_fragmentOf hf hi)) hbound.2

/-! ### Building -/

theorem sound_buildRoot (h : σ.Grounded) {selector host generator : Datum} {options : Table Datum}
    {purpose : NodeId → Purpose} (hs : σ.Covers selector.identities)
    (hh : σ.Covers host.identities) (hg : σ.Covers generator.identities)
    (ho : ∀ e ∈ options.entries, σ.Covers e.2.identities)
    (hp : ∀ n i, i ∈ (purpose n).links → i = .node n ∨ i ∈ host.identities) :
    (σ.buildRoot selector host generator options purpose).Sound σ := by
  unfold buildRoot
  split
  · cases hm : OptionSet.merge (optionsDatum options) with
    | error e => exact .refuse h e
    | ok o =>
      have he : σ.Earlier { σ with store := σ.store.plant selector (givenHost host) o } :=
        .of_trail (.single (.planted ..))
      refine sound_fill (h.plant hs (fun d hd => ?_) fun i hi => ?_) he hg ?_ fun i hi =>
        (hp _ i hi).imp_right (hh i)
      · unfold givenHost at hd
        split at hd
        · cases hd
        · cases hd
          exact hh
      · rcases OptionSet.mem_links_of_merge hm hi with ⟨e, he, hi⟩ | rfl
        · exact ho e he i hi
        · exact Nat.lt_trans Nat.zero_lt_one h.stamps
      · rw [Store.next_plant]
        exact Nat.lt_succ_self _
  · exact .refuse h _

section Arguments

variable {P : Identity → Prop} {options : Table Datum}

/-- What holds of the values of named arguments holds of those of their table. -/
theorem holds_ofList {arguments : List (String × Datum)}
    (ha : ∀ d ∈ arguments.map Prod.snd, ∀ i ∈ d.identities, P i) :
    ∀ e ∈ (Table.ofList arguments).entries, ∀ i ∈ e.2.identities, P i := by
  intro e he
  rcases Table.mem_insertAll he with he | he
  · cases he
  · exact ha e.2 (List.mem_map_of_mem he)

/-- What holds of an argument holds also if it may be missing. -/
theorem holds_getD {argument : Option Datum} (h : ∀ d ∈ argument, ∀ i ∈ d.identities, P i) :
    ∀ i ∈ (argument.getD .null).identities, P i := by
  cases argument with
  | none => nofun
  | some d => exact h d rfl

variable (ho : ∀ e ∈ options.entries, ∀ i ∈ e.2.identities, P i)
include ho

theorem holds_erase (name : String) :
    ∀ e ∈ (options.erase name).entries, ∀ i ∈ e.2.identities, P i :=
  fun e he => ho e (List.mem_filter.1 he).1

theorem holds_find? (name : String) :
    ∀ i ∈ ((options.find? name).getD .null).identities, P i :=
  holds_getD fun _ hd => by
    obtain ⟨e, he, rfl⟩ := List.mem_map.1 (mem_values_of_find? hd)
    exact ho e he

end Arguments

theorem sound_build (h : σ.Grounded) {selector generator : Datum} {host : Option Datum}
    {options : Table Datum} (output : Output) (hs : σ.Covers selector.identities)
    (hg : σ.Covers generator.identities) (hh : ∀ d ∈ host, σ.Covers d.identities)
    (ho : ∀ e ∈ options.entries, σ.Covers e.2.identities) :
    (σ.build selector generator host options output).Sound σ := by
  unfold build
  split
  · exact .refuse h _
  · split
    · exact .refuse h _
    · refine sound_buildRoot h hs ?_ hg (holds_erase ho _) fun n i hi =>
        .inl (List.mem_singleton.1 hi)
      cases host with
      | none => exact holds_find? ho _
      | some d => exact hh d rfl

theorem sound_construct (h : σ.Grounded) {selector generator host : Datum}
    {options : Table Datum} {parent : Option NodeId} (hp : ∀ p ∈ parent, σ.Announced p)
    (hs : σ.Covers selector.identities) (hg : σ.Covers generator.identities)
    (hh : σ.Covers host.identities)
    (ho : ∀ e ∈ options.entries, σ.Covers e.2.identities) :
    (σ.construct selector generator host options parent).Sound σ := by
  unfold construct
  cases parent with
  | none => exact sound_buildRoot h hs hh hg ho fun n i hi => .inl (List.mem_singleton.1 hi)
  | some p =>
    simp only
    split
    · have he : σ.Earlier { σ with store := σ.store.sprout p selector (givenHost host) } :=
        .of_trail (.single (.sprouted p selector _ none nofun))
      refine sound_fill (h.sprout (hp p rfl) hs fun d hd => ?_) he hg ?_ fun i hi =>
        .inl (List.mem_singleton.1 hi)
      · unfold givenHost at hd
        split at hd
        · cases hd
        · cases hd
          exact hh
      · rw [Store.next_sprout]
        exact Nat.lt_succ_self _
    · exact .refuse h _

/-! ### Style sheets -/

/-- A host is what it was given as. -/
theorem mem_of_asHost {host : Datum} {i : Identity} (h : σ.asHost host = .ok i) :
    i ∈ host.identities := by
  unfold asHost at h
  split at h
  · cases h
  · split at h
    · cases h
    · rename_i hi
      split at h
      · cases h
        exact Datum.mem_identities_of_identity? hi
      · cases h

theorem sound_obtain (h : σ.Grounded) (registry : RegistryId) {host generator : Datum}
    {options : Table Datum} (output : Output) (hh : σ.Covers host.identities)
    (hg : σ.Covers generator.identities)
    (ho : ∀ e ∈ options.entries, σ.Covers e.2.identities) :
    (σ.obtain registry host generator options output).Sound σ := by
  unfold obtain
  split
  · exact .refuse h _
  split
  · cases hi : σ.asHost host with
    | error e => exact .refuse h e
    | ok i =>
      simp only
      cases hs : σ.sheet? registry i with
      | some sheet =>
        simp only
        cases hr : σ.record .resettingSheet host with
        | error e => exact .refuse h e
        | ok σ₁ =>
          have hb := Session.Follows.of_record hr
          have he := Earlier.of_follows hb
          exact .after he (sound_reset (h.follows hb) (he.announced (h.sheet hs)) _ _ (hg.later he))
      | none =>
        simp only
        cases hr : σ.record .buildingSheet host with
        | error e => exact .refuse h e
        | ok σ₁ =>
          have hb := Session.Follows.of_record hr
          have he := Earlier.of_follows hb
          simp only
          split
          · exact .after he (.refuse (h.follows hb) _)
          · refine .after he (sound_buildRoot (h.follows hb) (.nil _) (hh.later he) (hg.later he)
              (fun e he' => (ho e he').later he) fun n j hj => ?_)
            rcases List.mem_cons.1 hj with rfl | hj
            · exact .inr (mem_of_asHost hi)
            · exact .inl (List.mem_singleton.1 hj)
  · exact .refuse h _

theorem sound_obtain_ofList (h : σ.Grounded) (registry : RegistryId) {host generator : Datum}
    {options : List (String × Datum)} (output : Output)
    (ha : ∀ d ∈ host :: generator :: options.map Prod.snd, σ.Covers d.identities) :
    (σ.obtain registry host generator (.ofList options) output).Sound σ :=
  sound_obtain h registry output (ha _ List.mem_cons_self)
    (ha _ (List.mem_cons_of_mem _ List.mem_cons_self))
    (holds_ofList fun d hd => ha d (List.mem_cons_of_mem _ (List.mem_cons_of_mem _ hd)))

theorem sound_createWith (h : σ.Grounded) {host first second : Datum} {options : Table Datum}
    (hh : σ.Covers host.identities) (h₁ : σ.Covers first.identities)
    (h₂ : σ.Covers second.identities) (ho : ∀ e ∈ options.entries, σ.Covers e.2.identities) :
    (σ.createWith host first second options).Sound σ := by
  unfold createWith
  split
  · split
    · exact sound_obtain h _ _ hh h₁ ho
    · exact .refuse h _
  · split
    · exact sound_obtain h _ _ h₁ h₂ ho
    · split
      · exact sound_build h _ (.nil σ) h₁ (fun d hd => by cases hd) ho
      · exact .refuse h _

theorem sound_create (h : σ.Grounded) {arguments : List Datum} {host : Datum}
    {options : Table Datum} (ha : ∀ d ∈ arguments, σ.Covers d.identities)
    (hh : σ.Covers host.identities) (ho : ∀ e ∈ options.entries, σ.Covers e.2.identities) :
    (σ.create arguments host options).Sound σ := by
  unfold create
  split
  · exact .refuse h _
  have hh' : σ.Covers
      (if host.isNull then (options.find? hostOption).getD .null else host).identities := by
    split
    · exact holds_find? ho _
    · exact hh
  have ho' : ∀ e ∈ (options.erase hostOption).entries, σ.Covers e.2.identities := holds_erase ho _
  rcases arguments with _ | ⟨first, _ | ⟨second, _ | ⟨third, rest⟩⟩⟩
  · exact .refuse h _
  · have alone : σ.Covers Datum.null.identities := .nil σ
    exact sound_createWith h hh' (ha first List.mem_cons_self) alone ho'
  · exact sound_createWith h hh' (ha first List.mem_cons_self)
      (ha second (List.mem_cons_of_mem _ List.mem_cons_self)) ho'
  · exact .refuse h _

/-! ### Reading -/

theorem sound_probe (h : σ.Grounded) {n : NodeId} (hn : σ.Announced n)
    (listed : List (String × Picture)) (names : List String) :
    (σ.probe n listed names).Sound σ := by
  induction names generalizing σ listed with
  | nil =>
    unfold probe
    exact .plain h fun a ha => by
      cases ha
      rfl
  | cons name rest ih =>
    have hv : σ.Covers (((σ.store.optionsOf n).get? name).getD .null).identities :=
      holds_getD fun _ hd i hi => h.optionsOf n i (OptionSet.mem_links_of_get? hd hi)
    unfold probe
    simp only
    split
    · cases ha : σ.apply (((σ.store.optionsOf n).get? name).getD .null) OptionSet.sample with
      | gives σ₁ d =>
        obtain ⟨he, h₁, -⟩ := grounded_of_gives h hv ha
        simp only
        cases d.picture σ₁.views with
        | error e => exact .after he (.refuse h₁ e)
        | ok given => exact .after he (ih h₁ (he.announced hn) _)
      | fails e => exact .refuse h e
      | runs body =>
        refine .enter (.refl σ) h ?_ _
        exact .cons (show σ.Has (.node n) from hn) hv
    · cases (((σ.store.optionsOf n).get? name).getD .null).picture σ.views with
      | error e => exact .refuse h e
      | ok p => exact ih h hn _

/-- The host of a rule set is one that a rule set was made with. -/
theorem Grounded.hostOf (h : σ.Grounded) (n : NodeId) : σ.Covers (σ.hostOf n).identities := by
  unfold Session.hostOf
  cases hf : (σ.chain n).findSome? fun m => (σ.store.get m).host with
  | none => exact .nil σ
  | some d =>
    obtain ⟨m, -, hd⟩ := List.exists_of_findSome?_eq_some hf
    show σ.Covers (σ.followHost d).identities
    unfold followHost
    split
    · split
      · exact h.host m d hd
      · exact .nil σ
    · exact h.host m d hd

theorem sound_readNode (h : σ.Grounded) {n : NodeId} (hn : σ.Announced n) (facet : Facet) :
    (σ.readNode n facet).Sound σ := by
  have node {m : NodeId} (hm : σ.Announced m) : σ.Covers (Datum.node m).identities :=
    .cons hm (.nil σ)
  have plain {r : Except Error Result} (hr : ∀ a, r = .ok a → a.datum.identities = []) :
      (Start.answer σ r).Sound σ := .plain h hr
  have mapped {α : Type} {x : Except Error α} {f : α → Result}
      (hf : ∀ a, (f a).datum.identities = []) : ∀ a, x.map f = .ok a → a.datum.identities = [] := by
    intro a ha
    cases x with
    | error e => cases ha
    | ok x =>
      cases ha
      exact hf x
  unfold readNode
  cases facet with
  | selector =>
    refine .answer h fun a ha => ?_
    cases ha
    exact h.selector n
  | children =>
    refine .answer h fun a ha => ?_
    cases ha
    intro i hi
    obtain ⟨c, hc, rfl⟩ := List.mem_map.1 hi
    exact h.children n c hc
  | parent =>
    refine .answer h fun a ha => ?_
    cases ha
    cases hp : σ.parent? n with
    | none => exact .nil σ
    | some p =>
      exact node (h.parent n p (parent_of_parent? hp))
  | host =>
    refine .answer h fun a ha => ?_
    cases ha
    exact h.hostOf n
  | itself =>
    refine .answer h fun a ha => ?_
    cases ha
    exact node hn
  | child index =>
    simp only
    split
    · rename_i c hc
      refine .answer h fun a ha => ?_
      cases ha
      refine node (h.children n c ?_)
      unfold childAt at hc
      split at hc
      · exact List.mem_of_getElem? hc
      · split at hc
        · exact List.mem_of_getElem? hc
        · cases hc
    · exact .refuse h _
  | options => exact sound_probe h hn _ _
  | text | scope =>
    refine plain fun a ha => ?_
    cases ha
    rfl
  | incomplete | dump | css | spelling | label => exact plain (mapped fun _ => rfl)
  | blocks =>
    refine plain (mapped fun texts => ?_)
    show Datum.itemIdentities (texts.map .text) = []
    induction texts with
    | nil => rfl
    | cons t rest ih => exact ih

theorem sound_read (h : σ.Grounded) {subject : Datum} (hs : σ.Covers subject.identities)
    (facet : Facet) : (σ.read subject facet).Sound σ := by
  have plain {x : Except Error String} : (Start.answer σ (x.map .text)).Sound σ :=
    .plain h fun a ha => by
      cases x with
      | error e => cases ha
      | ok t =>
        cases ha
        rfl
  unfold read
  split
  · exact sound_readNode h (hs _ List.mem_cons_self) facet
  · split
    · exact .answer h fun a ha => by
        cases ha
        exact hs
    · exact plain
    · exact plain
    · exact .refuse h _

/-! ### Iterations -/

/-- An iteration that begins is over the value, of which it holds nothing but parts. -/
theorem begun_cases {subject : Datum} {walk : Walk} {i : Iteration}
    (hb : (match walk, subject with
      | .items, d => Iteration.of? d
      | .blocks, .node n => Iteration.of? (.node n)
      | .blocks, _ => .error Error.noTarget) = .ok i) :
    i.identities = subject.identities ∧ i.Held := by
  have of {x : Datum} (h : Iteration.of? x = .ok i) : i.identities = x.identities ∧ i.Held := by
    unfold Iteration.of? at h
    split at h
    · cases h
      exact ⟨rfl, nofun⟩
    · split at h
      · rename_i found hf
        cases h
        refine ⟨rfl, fun d hd j hj => ?_⟩
        rcases List.mem_cons.1 hd with rfl | hd
        · exact hj
        · exact Datum.mem_of_items? hf hd hj
      · cases h
  cases walk with
  | items => exact of hb
  | blocks =>
    cases subject with
    | node n => exact of hb
    | _ => cases hb

/-- An iteration over blocks yields texts. -/
theorem next_blocks (store : Store) (look : Appearance) (c : Cursor) :
    ∃ r j, (Iteration.blocks c).next store look = (r, j) ∧ j.data = [] ∧
      ∀ d, r = .ok (some d) → d.identities = [] := by
  rcases hc : c.next store look with e | ⟨_ | block, c'⟩
  · exact ⟨.error e, .ended, by simp only [Iteration.next, hc], rfl, nofun⟩
  · exact ⟨.ok none, .ended, by simp only [Iteration.next, hc], rfl, nofun⟩
  · refine ⟨.ok (some (.text block)), .blocks c', by simp only [Iteration.next, hc], rfl, ?_⟩
    intro d hd
    cases hd
    rfl

/-- What an iteration yields next is part of what it holds, and what is left of it is held. -/
theorem held_next {i : Iteration} (hi : i.Held) (store : Store) (look : Appearance) :
    (i.next store look).2.Held ∧ (i.next store look).2.data ⊆ i.data ∧
      ∀ d, (i.next store look).1 = .ok (some d) → d ∈ i.data ∨ d.identities = [] := by
  cases i with
  | ended => exact ⟨hi, List.Subset.refl _, nofun⟩
  | blocks c =>
    obtain ⟨r, j, he, hj, hr⟩ := next_blocks store look c
    have hdata : j.data ⊆ [] := hj ▸ List.Subset.refl _
    rw [he]
    exact ⟨fun d hd => (List.not_mem_nil (hdata hd)).elim, hdata, fun d hd => .inr (hr d hd)⟩
  | items source rest =>
    cases rest with
    | nil => exact ⟨nofun, List.nil_subset _, nofun⟩
    | cons first rest =>
      have hsub : (Iteration.items source rest).data ⊆ (Iteration.items source (first :: rest)).data :=
        List.cons_subset_cons _ (List.subset_cons_self _ _)
      refine ⟨fun d hd => hi d (hsub hd), hsub, fun d hd => ?_⟩
      cases hd
      exact .inl (List.mem_cons_of_mem _ List.mem_cons_self)

/-- What an iteration yields if it is asked several times is part of what it holds. -/
theorem held_take {i : Iteration} (hi : i.Held) (store : Store) (look : Appearance) (count : Nat) :
    (i.take store look count).2.Held ∧ (i.take store look count).2.data ⊆ i.data ∧
      ∀ ds, (i.take store look count).1 = .ok ds →
        ∀ d ∈ ds, d ∈ i.data ∨ d.identities = [] := by
  induction count generalizing i with
  | zero =>
    refine ⟨hi, List.Subset.refl _, fun ds hds d hd => ?_⟩
    cases hds
    cases hd
  | succ count ih =>
    have hnext := held_next hi store look
    unfold Iteration.take
    generalize i.next store look = p at hnext
    obtain ⟨r, j⟩ := p
    obtain ⟨hheld, hsub, hyield⟩ := hnext
    cases r with
    | error e => exact ⟨hheld, hsub, fun ds hds => by cases hds⟩
    | ok first =>
      obtain ⟨h₁, h₂, h₃⟩ := ih hheld
      refine ⟨h₁, List.Subset.trans h₂ hsub, fun ds hds d hd => ?_⟩
      simp only at hds
      cases hrest : (j.take store look count).1 with
      | error e => rw [hrest] at hds; cases hds
      | ok rest =>
        rw [hrest] at hds
        cases hds
        rcases List.mem_cons.1 hd with rfl | hd
        · cases first with
          | none => exact .inr rfl
          | some d => exact hyield d rfl
        · exact (h₃ rest hrest d hd).imp_left fun hd => hsub hd

/-! ### Statements -/

section Statements

theorem sound_onNode (h : σ.Grounded) {t : Target} {act : NodeId → Start}
    (ha : ∀ n, σ.Announced n → (act n).Sound σ) : (σ.onNode t act).Sound σ := by
  have ht := h.target t
  unfold onNode
  split
  · rename_i n hn
    rw [hn] at ht
    exact ha n (ht _ List.mem_cons_self)
  · exact .refuse h _

theorem sound_changeStore (h : σ.Grounded) {store : Except Error Store} {result : Store → Result}
    (hs : ∀ s, store = .ok s → (∃ events, σ.store.Trail events s) ∧
      ({ σ with store := s } : Session).Grounded)
    (hr : ∀ s, (result s).datum.identities = []) : (σ.changeStore store result).Sound σ := by
  unfold changeStore
  cases store with
  | error e => exact .refuse h e
  | ok s =>
    obtain ⟨⟨events, ht⟩, h'⟩ := hs s rfl
    refine .done (.of_trail ht) h' fun a ha => ?_
    cases ha
    rw [hr]
    exact .nil _

theorem sound_write (h : σ.Grounded) (n : NodeId) (d : Datum) :
    (σ.changeStore (σ.store.write n d) fun s => .written (s.get n).text).Sound σ :=
  sound_changeStore h (fun s hs => by
    obtain ⟨t, rfl⟩ := Store.exists_text_of_write hs
    exact ⟨⟨_, .single (Store.becomes_of_write hs)⟩, h.write hs⟩) fun _ => rfl

theorem sound_assign (h : σ.Grounded) (n : NodeId) (properties : Datum) (keywords : Table Datum) :
    (σ.changeStore (σ.store.assign σ.appearance n properties keywords)
      fun s => .written (s.get n).text).Sound σ := by
  unfold Store.assign
  cases declarationsOf σ.appearance (some properties) keywords with
  | error e => exact .refuse h e
  | ok lines => exact sound_write h n _

theorem sound_define (h : σ.Grounded) (n : NodeId) (name : String) (value : Datum) :
    (σ.changeStore (σ.store.define σ.appearance n name value)
      fun s => .scope (s.get n).scope.entries).Sound σ := by
  refine sound_changeStore h (fun s hs => ?_) fun _ => rfl
  unfold Store.define at hs
  cases hv : propertyValue σ.appearance value with
  | error e => rw [hv] at hs; cases hs
  | ok text =>
    rw [hv] at hs
    cases hs
    exact ⟨⟨_, .single (.defined n name text)⟩, h.define n name text⟩

theorem sound_iterate (h : σ.Grounded) {subject : Datum} (hs : σ.Covers subject.identities)
    (walk : Walk) (iteration : String) : (σ.iterate subject walk iteration).Sound σ := by
  unfold iterate
  simp only
  split
  · exact .refuse h _
  · rename_i i hi
    have he : σ.Earlier { σ with iterations := σ.iterations.insert iteration i } :=
      .of_kept rfl rfl rfl rfl rfl rfl
    obtain ⟨hids, hheld⟩ := begun_cases hi
    exact .nothing he (h.iterate iteration (fun d hd j hj => hs j (hids ▸ hheld d hd hj)) hheld)

theorem sound_advance (h : σ.Grounded) (iteration : String) (count : Nat) :
    (σ.advance iteration count).Sound σ := by
  unfold advance
  split
  · exact .refuse h _
  · rename_i i hi
    have hi := mem_values_of_find? hi
    obtain ⟨h₁, h₂, h₃⟩ := held_take (h.left i hi) σ.store σ.appearance count
    generalize i.take σ.store σ.appearance count = p at h₁ h₂ h₃
    obtain ⟨r, j⟩ := p
    have he : σ.Earlier { σ with iterations := σ.iterations.insert iteration j } :=
      .of_kept rfl rfl rfl rfl rfl rfl
    refine .done he (h.iterate iteration (fun d hd => h.iterations i hi d (h₂ hd)) h₁) fun a ha => ?_
    cases r with
    | error e => cases ha
    | ok ds =>
      cases ha
      intro k hk
      change k ∈ Datum.itemIdentities ds at hk
      rw [Datum.itemIdentities_eq_flatMap] at hk
      obtain ⟨d, hd, hk⟩ := List.mem_flatMap.1 hk
      rcases h₃ ds rfl d hd with hd | hnil
      · exact he.has (h.iterations i hi d hd k hk)
      · rw [hnil] at hk
        cases hk

/-- Looking up a registry by name, which may make one. -/
theorem sound_onRegistry (h : σ.Grounded) {name : String} (act : Session → RegistryId → Start)
    (ha : ∀ σ₁, σ.Earlier σ₁ → σ₁.Grounded → (act σ₁ (σ.withRegistry name).2).Sound σ₁) :
    (σ.onRegistry name act).Sound σ := by
  have he : σ.Earlier (σ.withRegistry name).1 := by
    unfold withRegistry makeRegistry
    split <;> exact .of_kept rfl rfl rfl rfl rfl rfl
  exact .after he (ha _ he (h.withRegistry name))

theorem sound_release (h : σ.Grounded) (id : RegistryId) (host : Datum) :
    (σ.release id host).Sound σ := by
  unfold release
  cases hr : σ.record .releasingSheet host with
  | error e => exact .refuse h e
  | ok σ₁ =>
    have hb := Session.Follows.of_record hr
    have h₁ := h.follows hb
    refine .after (.of_follows hb) ?_
    simp only
    split
    · split
      · refine .plain h₁ fun a ha => ?_
        cases ha
        rfl
      · exact .refuse h₁ _
    · exact .refuse h₁ _
    · rename_i i hi
      have he : σ₁.Earlier (σ₁.eraseSheet id i) := .of_kept rfl rfl rfl rfl rfl rfl
      refine .done he (h₁.setEntries id fun e hm => ?_) fun a ha => ?_
      · exact h₁.sheets id e (List.mem_filter.1 ((Registry.erase_sublist _ _).subset hm)).1
      · cases ha
        exact (h₁.covers_sheet? id i).later he

theorem covers_lookup (h : σ.Grounded) {id : RegistryId} {host : Datum} {a : Result}
    (ha : σ.lookup id host = .ok a) : σ.Covers a.datum.identities := by
  unfold lookup at ha
  cases hi : σ.asHost host with
  | error e => rw [hi] at ha; cases ha
  | ok i =>
    rw [hi] at ha
    cases ha
    exact h.covers_sheet? _ i

theorem sound_setOption (h : σ.Grounded) (n : NodeId) (name : String) {value : Datum}
    (hv : σ.Covers value.identities) :
    (σ.changeStore (.ok (σ.store.setOption n name value)) fun _ => .nothing).Sound σ := by
  refine sound_changeStore h (fun s hs => ?_) fun _ => rfl
  cases hs
  exact ⟨⟨_, .single (.optionSet n name value)⟩, h.setOption n name hv⟩

/-- What a handle names as the parent of a construction was made. -/
theorem Grounded.of_parent (h : σ.Grounded) {parent : Option String} {p : NodeId}
    (hp : parent.bind σ.handles.find? = some p) : σ.Announced p := by
  obtain ⟨handle, -, hf⟩ := Option.bind_eq_some_iff.1 hp
  exact h.handles p (mem_values_of_find? hf)

theorem sound_begin (h : σ.Grounded) {action : Action Datum (List Stmt)}
    (ha : σ.Covers (action.arguments.flatMap Datum.identities)) : (σ.begin action).Sound σ := by
  have arg {d : Datum} (hd : d ∈ action.arguments) : σ.Covers d.identities := fun i hi =>
    ha i (List.mem_flatMap.2 ⟨d, hd, hi⟩)
  have later {σ₁ : Session} (he : σ.Earlier σ₁) {d : Datum} (hd : d ∈ action.arguments) :
      σ₁.Covers d.identities := (arg hd).later he
  cases action with
  | select t method argument generator =>
    exact sound_onNode h fun n hn => sound_callMethod h hn method
      (fun d hd => arg (Action.mem_arguments_select.2 (.inl hd)))
      fun d hd => arg (Action.mem_arguments_select.2 (.inr hd))
  | write t text => exact sound_onNode h fun n _ => sound_write h n text
  | assign t properties keywords =>
    exact sound_onNode h fun n _ => sound_assign h n (properties.getD .null) (.ofList keywords)
  | define t name value => exact sound_onNode h fun n _ => sound_define h n name value
  | setScope t name value => exact sound_onNode h fun n _ => .refuse h _
  | check t name => exact sound_onNode h fun n _ => .plain h (unlinked_bool _)
  | var t name => exact sound_onNode h fun n _ => .plain h (unlinked_text _)
  | reset t generator =>
    exact sound_onNode h fun n hn => sound_reset h hn none .node (arg List.mem_cons_self)
  | read t facet => exact sound_read h (h.target t) facet
  | setOption t name value =>
    exact sound_onNode h fun n _ => sound_setOption h n name (arg List.mem_cons_self)
  | iterate t walk iteration => exact sound_iterate h (h.target t) walk iteration
  | advance iteration count => exact sound_advance h iteration count
  | same a b => exact .plain h (unlinked_bool _)
  | drop handle => exact .nothing (.of_kept rfl rfl rfl rfl rfl rfl) (h.drop handle)
  | build selector generator host options =>
    have arg' {d : Datum} (hd : d = selector ∨ d = generator ∨ host = some d ∨
        d ∈ options.map Prod.snd) : σ.Covers d.identities := arg (Action.mem_arguments_build.2 hd)
    exact sound_build h _ (arg' (.inl rfl)) (arg' (.inr (.inl rfl)))
      (fun d hd => arg' (.inr (.inr (.inl hd))))
      (holds_ofList fun d hd => arg' (.inr (.inr (.inr hd))))
  | construct selector generator host options parent =>
    have arg' {d : Datum} (hd : d = selector ∨ d = generator ∨ host = some d ∨
        d ∈ options.map Prod.snd) : σ.Covers d.identities := arg (Action.mem_arguments_construct.2 hd)
    exact sound_construct h (fun p hp => h.of_parent hp) (arg' (.inl rfl)) (arg' (.inr (.inl rfl)))
      (holds_getD fun d hd => arg' (.inr (.inr (.inl hd))))
      (holds_ofList fun d hd => arg' (.inr (.inr (.inr hd))))
  | create arguments host options =>
    have arg' {d : Datum} (hd : d ∈ arguments ∨ host = some d ∨ d ∈ options.map Prod.snd) :
        σ.Covers d.identities := arg (Action.mem_arguments_create.2 hd)
    exact sound_create h (fun d hd => arg' (.inl hd))
      (holds_getD fun d hd => arg' (.inr (.inl hd)))
      (holds_ofList fun d hd => arg' (.inr (.inr hd)))
  | makeHost name kind => exact .nothing (h.makeHost name kind).1 (h.makeHost name kind).2
  | dropHost name => exact .nothing (.of_kept rfl rfl rfl rfl rfl rfl) (h.dropHost name)
  | makeRegistry name => exact .nothing (.of_kept rfl rfl rfl rfl rfl rfl) (h.makeRegistry name)
  | lookup name host =>
    exact sound_onRegistry h (fun σ id => .answer σ (σ.lookup id host)) fun σ₁ _ h₁ =>
      .answer h₁ fun a ha => covers_lookup h₁ ha
  | release name host =>
    exact sound_onRegistry h (fun σ id => σ.release id host) fun σ₁ _ h₁ => sound_release h₁ _ host
  | contains name host =>
    exact sound_onRegistry h (fun σ id => .answer σ (σ.containsHost id host)) fun σ₁ _ h₁ =>
      .plain h₁ (σ₁.unlinked_containsHost _ host)
  | size name =>
    exact sound_onRegistry h (fun σ id => .answer σ (.ok (.value (.int (σ.entries id).length))))
      fun σ₁ _ h₁ => .plain h₁ (unlinked_int _)
  | labelRegistry name =>
    exact sound_onRegistry h (fun σ id => .answer σ (.ok (.text (σ.registryLabel id))))
      fun σ₁ _ h₁ => .plain h₁ (unlinked_text (.ok _))
  | clear name =>
    exact sound_onRegistry h (fun σ id => .done (σ.setEntries id []) (.ok .nothing))
      fun σ₁ _ h₁ => .nothing (.of_kept rfl rfl rfl rfl rfl rfl) (h₁.setEntries _ nofun)
  | obtain name host generator options =>
    exact sound_onRegistry h (fun σ id => σ.obtain id host generator (.ofList options) .node)
      fun σ₁ he h₁ => sound_obtain_ofList h₁ _ .node fun d hd => later he hd
  | render name host generator options =>
    exact sound_onRegistry h (fun σ id => σ.obtain id host generator (.ofList options) .css)
      fun σ₁ he h₁ => sound_obtain_ofList h₁ _ .css fun d hd => later he hd
  | raise message => exact .refuse h _
  | attempt body =>
    have hp : σ.Covers (Purpose.links .attempt) := .nil σ
    exact .enter (.refl σ) h hp body

/-- What a finished build gives refers to nothing but the rule set that was built. -/
theorem holds_output {P : Identity → Prop} {n : NodeId} (σ : Session) (hp : P (.node n))
    (out : Output) (a : Result) (ha : σ.output n out = .ok a) : ∀ i ∈ a.datum.identities, P i := by
  cases out with
  | node =>
    cases ha
    exact List.forall_mem_cons.2 ⟨hp, nofun⟩
  | css =>
    unfold output at ha
    cases hc : σ.css n with
    | error e =>
      rw [hc] at ha
      cases ha
    | ok t =>
      rw [hc] at ha
      cases ha
      nofun

theorem sound_finish (h : σ.Grounded) {purpose : Purpose} (hp : σ.Covers purpose.links) :
    (σ.finish purpose).Sound σ := by
  cases purpose with
  | select child fragment className =>
    have hc : σ.Announced child := hp (.node child) List.mem_cons_self
    have he : σ.Earlier { σ with store := σ.store.attach child } :=
      .of_store (Nat.le_of_eq (Store.next_attach ..).symm) fun n _ => by
        show ((σ.store.attach child).get n).selector = _
        rw [Store.get_attach]
        split <;> rfl
    refine .done he (h.attach hc) fun a ha => ?_
    cases ha
    exact Covers.later (hp.of_subset fun i hi =>
      List.mem_append_left _ (List.mem_cons_of_mem _ hi)) he
  | build n out => exact .answer h (σ.holds_output (hp _ List.mem_cons_self) out)
  | reset n registry out => exact .answer h (σ.holds_output (hp _ List.mem_cons_self) out)
  | register id host n out =>
    have hn : σ.Announced n := hp (.node n) (List.mem_cons_of_mem _ List.mem_cons_self)
    have he : σ.Earlier (σ.putSheet id host n) := .of_kept rfl rfl rfl rfl rfl rfl
    refine .after he (.answer (h.setEntries id fun e hm => ?_)
      ((σ.putSheet id host n).holds_output (he.has hn) out))
    rcases Registry.mem_put hm with ⟨e', he', hs⟩ | hs
    · exact hs ▸ h.sheets id e' (List.mem_filter.1 he').1
    · exact hs ▸ hn
  | name n kind generator callee =>
    show (σ.selectNamed n .null generator).Sound σ
    refine sound_selectNamed h (hp _ List.mem_cons_self) (.nil σ) fun d hd i hi => hp i ?_
    exact List.mem_append_left _ (List.mem_append_right _
      (List.mem_flatMap.2 ⟨d, Option.mem_toList.2 hd, hi⟩))
  | probe n callee listed name rest => exact sound_probe h (hp _ List.mem_cons_self) _ _
  | attempt =>
    refine .plain h fun a ha => ?_
    cases ha
    rfl

end Statements

end Session

end RuleTree
