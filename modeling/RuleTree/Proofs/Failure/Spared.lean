import RuleTree.Proofs.Options.Shared
import RuleTree.Proofs.Sheets.Entered

/-!
# What a refused operation leaves as it was

* `Store.Spares`, `Session.Spares`: having all rule sets and registries as they were, and what goes
  by names;
* `Session.Erases`: a rule set was emptied, though calling the generator on it failed at once;
* `Start.Refuses`: a start that leaves everything as it was if it fails, unless it did that;
* one lemma for each operation that runs generators, from running one on a new rule set to creating
  a text;
* `Store.Held`: all rule sets have options that are there.

Whatever is checked is checked before anything is cleared, made or kept. Only whether a value that
can be called takes a rule set is not known until it is called, and by then a reset has emptied its
rule set.
-/

namespace RuleTree

/-! ### Having everything as it was -/

/-- All rule sets have options that are there. -/
def Store.Held (s : Store) : Prop := ∀ n < s.next, (s.get n).options < s.options.size

/-- Having all rule sets with their options as they were, and maybe further ones. -/
structure Store.Spares (s t : Store) : Prop where
  next_le : s.next ≤ t.next
  get : ∀ n < s.next, t.get n = s.get n
  optionsOf : ∀ n < s.next, t.optionsOf n = s.optionsOf n

namespace Store.Spares

variable {s t u : Store}

theorem refl (s : Store) : s.Spares s := ⟨Nat.le_refl _, fun _ _ => rfl, fun _ _ => rfl⟩

theorem trans (h : s.Spares t) (h' : t.Spares u) : s.Spares u where
  next_le := Nat.le_trans h.next_le h'.next_le
  get n hn := (h'.get n (Nat.lt_of_lt_of_le hn h.next_le)).trans (h.get n hn)
  optionsOf n hn := (h'.optionsOf n (Nat.lt_of_lt_of_le hn h.next_le)).trans (h.optionsOf n hn)

/-- A new root spares all others, whose options are there already. -/
theorem plant (held : s.Held) (selector : Datum) (host : Option Datum) (o : OptionSet) :
    s.Spares (s.plant selector host o) where
  next_le := by simp
  get n hn := by rw [get_plant, if_neg (Nat.ne_of_lt hn)]
  optionsOf n hn := by
    unfold Store.optionsOf
    rw [get_plant, if_neg (Nat.ne_of_lt hn)]
    show ((s.options.push o)[(s.get n).options]?).getD default = _
    rw [Array.getElem?_push_lt (held n hn), Array.getElem?_eq_getElem (held n hn)]

/-- A new rule set under a parent leaves everything else as it is. -/
theorem sprout (s : Store) (p : NodeId) (selector : Datum) (host : Option Datum) :
    s.Spares (s.sprout p selector host) where
  next_le := by simp
  get n hn := by rw [get_sprout, if_neg (Nat.ne_of_lt hn)]
  optionsOf n hn := by
    unfold Store.optionsOf
    rw [get_sprout, if_neg (Nat.ne_of_lt hn)]
    rfl

end Store.Spares

namespace Session

variable {σ σ' σ₁ σ₂ : Session} {e : Error}

/-- Having all rule sets and registries as they were, and what goes by names. -/
structure Spares (σ σ' : Session) : Prop where
  store : σ.store.Spares σ'.store
  registries : ∀ id, σ'.filedEntries id = σ.filedEntries id
  hosts : σ'.hosts = σ.hosts ∧ σ'.hostNames = σ.hostNames
  kept : σ'.handles = σ.handles ∧ σ'.saved = σ.saved ∧ σ'.iterations = σ.iterations

namespace Spares

theorem of_amends (h : σ.Amends σ') (hs : σ.store.Spares σ'.store) : σ.Spares σ' := by
  obtain ⟨_, _, _, _, _, rfl⟩ := h
  exact ⟨hs, fun _ => rfl, ⟨rfl, rfl⟩, rfl, rfl, rfl⟩

theorem of_beside (h : σ.Beside σ') : σ.Spares σ' :=
  .of_amends (.of_beside h) (h.store ▸ .refl _)

theorem refl (σ : Session) : σ.Spares σ := .of_beside (.refl σ)

theorem of_store {store : Store} (h : σ.store.Spares store) : σ.Spares { σ with store } :=
  .of_amends (.of_store σ store) h

theorem trans (h : σ.Spares σ₁) (h' : σ₁.Spares σ₂) : σ.Spares σ₂ where
  store := h.store.trans h'.store
  registries id := (h'.registries id).trans (h.registries id)
  hosts := ⟨h'.hosts.1.trans h.hosts.1, h'.hosts.2.trans h.hosts.2⟩
  kept := ⟨h'.kept.1.trans h.kept.1, h'.kept.2.1.trans h.kept.2.1, h'.kept.2.2.trans h.kept.2.2⟩

/-- With the same rule sets in place of those of both. -/
theorem with_store (h : σ.Spares σ₁) (store : Store) :
    ({ σ with store } : Session).Spares { σ₁ with store } :=
  { h with store := .refl store }

theorem callable_eq (h : σ.Spares σ₁) (d : Datum) : σ₁.callable d = σ.callable d := by
  unfold callable hostKind
  rw [h.hosts.1]

/-- Naming a registry may make one, which is empty. -/
theorem withRegistry (σ : Session) (name : String) : σ.Spares (σ.withRegistry name).1 := by
  have hf := σ.filedEntries_withRegistry name
  obtain ⟨_, _, h, -⟩ := σ.withRegistry_eq name
  rw [h] at hf ⊢
  exact ⟨.refl _, hf, ⟨rfl, rfl⟩, rfl, rfl, rfl⟩

end Spares

/-- Emptying a rule set for a reset, although calling the generator on it then fails at once. -/
structure Erases (σ : Session) (n : NodeId) (generator : Datum) (e : Error) (σ' : Session) :
    Prop where
  clears : σ.store.clearsOnReset n = true
  callable : σ.callable generator = true
  emptied : ({ σ with store := σ.store.clearForReset n } : Session).Spares σ'
  fails : σ'.apply generator (.node n) = .fails e

theorem Erases.after {n : NodeId} {generator : Datum} (h : σ.Spares σ₁)
    (hs : σ₁.store = σ.store) (h' : σ₁.Erases n generator e σ') : σ.Erases n generator e σ' where
  clears := hs ▸ h'.clears
  callable := h.callable_eq generator ▸ h'.callable
  emptied := (h.with_store _).trans (hs ▸ h'.emptied)
  fails := h'.fails

end Session

/-- Leaving everything as it was if it fails, unless one of some rule sets was emptied and then
calling one of some generators on it failed at once. -/
structure Start.Refuses (st : Start) (σ : Session) (resets : List NodeId)
    (generators : List Datum) : Prop where
  fails : ∀ σ' e, st = .done σ' (.error e) →
    σ.Spares σ' ∨ ∃ n ∈ resets, ∃ generator ∈ generators, σ.Erases n generator e σ'

namespace Start.Refuses

variable {σ σ₁ : Session} {st : Start} {ns ns' : List NodeId} {gs gs' : List Datum}

theorem refuse (h : σ.Spares σ₁) (e : Error) : (Start.refuse σ₁ e).Refuses σ ns gs := by
  refine ⟨fun σ' e' hst => ?_⟩
  cases hst
  exact .inl h

theorem answer (σ : Session) (r : Except Error Result) : (Start.answer σ r).Refuses σ ns gs := by
  refine ⟨fun σ' e' hst => ?_⟩
  cases hst
  exact .inl (.refl σ)

theorem enter (σ₁ : Session) (purpose : Purpose) (body : List Stmt) :
    (Start.enter σ₁ purpose body).Refuses σ ns gs := ⟨nofun⟩

/-- What comes before and leaves everything as it was. -/
theorem after (h : σ.Spares σ₁) (hs : σ₁.store = σ.store) (h' : st.Refuses σ₁ ns gs) :
    st.Refuses σ ns gs := by
  refine ⟨fun σ' e hst => ?_⟩
  rcases h'.fails σ' e hst with hk | ⟨n, hn, g, hg, he⟩
  · exact .inl (h.trans hk)
  · exact .inr ⟨n, hn, g, hg, he.after h hs⟩

theorem after_beside (h : σ.Beside σ₁) (h' : st.Refuses σ₁ ns gs) : st.Refuses σ ns gs :=
  .after (.of_beside h) h.store h'

theorem mono (h : st.Refuses σ ns gs) (hn : ns ⊆ ns') (hg : gs ⊆ gs') : st.Refuses σ ns' gs' :=
  ⟨fun σ' e hst => (h.fails σ' e hst).imp_right fun ⟨n, h₁, g, h₂, he⟩ => ⟨n, hn h₁, g, hg h₂, he⟩⟩

end Start.Refuses

namespace Session

variable {σ : Session} {ns : List NodeId} {gs : List Datum}

/-! ### Generators -/

/-- Running a generator fails only because calling it does, and then changes nothing. -/
theorem fails_of_launch {purpose : Purpose} {generator : Datum} {n : NodeId} {σ' : Session}
    {e : Error} (h : σ.launch purpose generator n = .done σ' (.error e)) :
    σ' = σ ∧ σ.apply generator (.node n) = .fails e := by
  unfold launch at h
  split at h
  · cases h
  · rename_i e' ha
    cases h
    exact ⟨rfl, ha⟩
  · cases h

theorem refuses_fill {store : Store} (hs : σ.store.Spares store) (n : NodeId) (purpose : Purpose)
    (generator : Datum) : (σ.fill store n purpose generator).Refuses σ ns gs := by
  unfold fill
  cases hr : { σ with store }.record .generating (store.get n).selector with
  | error e =>
    simp only [hr]
    exact .refuse (.of_store hs) e
  | ok σ₁ =>
    refine ⟨fun σ' e hst => ?_⟩
    simp only [hr] at hst
    obtain ⟨rfl, -⟩ := fails_of_launch hst
    exact .inl ((Spares.of_store hs).trans (.of_beside (.of_record hr)))

/-- A reset finds out whether its generator can be called before it empties anything. A rule set that
was announced can be shown again, so that the record never fails. -/
theorem refuses_reset (hg : σ.Grounded) {n : NodeId} (hn : σ.Announced n)
    (registry : Option RegistryId) (output : Output) (generator : Datum) :
    (σ.reset n registry output generator).Refuses σ [n] [generator] := by
  cases hc : σ.callable generator with
  | false =>
    unfold reset
    rw [hc, if_neg Bool.false_ne_true]
    exact .refuse (.refl σ) _
  | true =>
    obtain ⟨σ₁, hr⟩ := (hg.clearForReset n).exists_record
      ((Earlier.clearForReset σ n).announced hn) .resetting
    rw [reset_of_ok hc hr]
    refine ⟨fun σ' e hst => ?_⟩
    obtain ⟨rfl, ha⟩ := fails_of_launch hst
    have hb : ({ σ with store := σ.store.clearForReset n } : Session).Spares σ' :=
      .of_beside (.of_record hr)
    cases hk : σ.store.clearsOnReset n with
    | true =>
      exact .inr ⟨n, List.mem_singleton_self _, generator, List.mem_singleton_self _, hk, hc, hb, ha⟩
    | false =>
      have hsame : σ.store.clearForReset n = σ.store := by
        unfold Store.clearForReset
        rw [hk, if_neg Bool.false_ne_true]
      rw [hsame] at hb
      exact .inl hb

/-! ### Selections -/

theorem refuses_selectFrom (σ : Session) (n : NodeId) (className : Option Datum) (fragment : Datum)
    (generator : Option Datum) : (σ.selectFrom n className fragment generator).Refuses σ ns gs := by
  unfold selectFrom
  cases generator with
  | none => exact .answer σ _
  | some generator =>
    simp only
    split
    · exact .answer σ _
    · cases (σ.store.get n).selector.plus σ.stamps fragment with
      | error e => exact .refuse (.refl σ) e
      | ok selector =>
        simp only
        split
        · let σ₁ := { σ with stamps := σ.stamps + 1 }
          have hb : σ.Beside σ₁ := .of_log σ _ rfl
          exact .after_beside hb (refuses_fill (.sprout σ₁.store n selector none) _ _ _)
        · exact .refuse (.refl σ) _

theorem refuses_selectNamed (σ : Session) (n : NodeId) (className : Datum)
    (generator : Option Datum) : (σ.selectNamed n className generator).Refuses σ ns gs := by
  unfold selectNamed
  cases Method.kind.fragmentOf σ.appearance className with
  | error e => exact .refuse (.refl σ) e
  | ok fragment => exact refuses_selectFrom ..

/-- Calling the naming option of a rule set on a kind, which gives a class name at once. -/
def Names (σ : Session) (n : NodeId) (kind : Datum) (σ₁ : Session) : Prop :=
  ∃ className, σ.apply (σ.store.optionsOf n).className kind = .gives σ₁ className

/-- The naming option comes first. What fails after it leaves everything as the option left it. -/
theorem refuses_selectKind (σ : Session) (n : NodeId) (kind : Datum) (generator : Option Datum) :
    ∃ σ₁, (σ₁ = σ ∨ σ.Names n kind σ₁) ∧ (σ.selectKind n kind generator).Refuses σ₁ ns gs := by
  unfold selectKind
  simp only
  cases hg : σ.apply (σ.store.optionsOf n).className kind with
  | gives σ₁ className => exact ⟨σ₁, .inr ⟨className, hg⟩, refuses_selectNamed ..⟩
  | fails e => exact ⟨σ, .inl rfl, .refuse (.refl σ) e⟩
  | runs body => exact ⟨σ, .inl rfl, .enter σ _ _⟩

theorem bind_kind {argument generator argument' generator' : Option Datum}
    (h : Method.kind.bind argument generator = .ok (argument', generator')) :
    argument' = argument := by
  unfold Method.bind at h
  rw [if_pos (show Method.kind.takesArgument = true from rfl)] at h
  split at h <;> cases h
  rfl

theorem refuses_callMethod (σ : Session) (n : NodeId) (name : String)
    (argument generator : Option Datum) : ∃ σ₁,
      (σ₁ = σ ∨ Method.named name = .ok .kind ∧ σ.Names n (argument.getD .null) σ₁) ∧
      (σ.callMethod n name argument generator).Refuses σ₁ ns gs := by
  unfold callMethod
  cases hm : Method.named name with
  | error e => exact ⟨σ, .inl rfl, .refuse (.refl σ) e⟩
  | ok m =>
    simp only
    cases hb : m.bind argument generator with
    | error e => exact ⟨σ, .inl rfl, .refuse (.refl σ) e⟩
    | ok bound =>
      obtain ⟨argument', generator'⟩ := bound
      simp only
      split
      · rename_i hk
        subst hk
        obtain rfl := bind_kind hb
        obtain ⟨σ₁, h₁, h₂⟩ := refuses_selectKind σ n (argument'.getD .null) generator'
        exact ⟨σ₁, h₁.imp_right fun h => ⟨rfl, h⟩, h₂⟩
      · refine ⟨σ, .inl rfl, ?_⟩
        unfold selectBy
        cases m.fragmentOf σ.appearance (argument'.getD .null) with
        | error e => exact .refuse (.refl σ) e
        | ok fragment => exact refuses_selectFrom ..

/-! ### Building -/

theorem refuses_buildRoot (held : σ.store.Held) (selector host generator : Datum)
    (options : Table Datum) (purpose : NodeId → Purpose) :
    (σ.buildRoot selector host generator options purpose).Refuses σ ns gs := by
  unfold buildRoot
  split
  · cases OptionSet.merge (optionsDatum options) with
    | error e => exact .refuse (.refl σ) e
    | ok o => exact refuses_fill (.plant held selector (givenHost host) o) _ _ _
  · exact .refuse (.refl σ) _

theorem refuses_build (held : σ.store.Held) (selector generator : Datum) (host : Option Datum)
    (options : Table Datum) (output : Output) :
    (σ.build selector generator host options output).Refuses σ ns gs := by
  unfold build
  split
  · exact .refuse (.refl σ) _
  · split
    · exact .refuse (.refl σ) _
    · exact refuses_buildRoot held ..

theorem refuses_construct (held : σ.store.Held) (selector generator host : Datum)
    (options : Table Datum) (parent : Option NodeId) :
    (σ.construct selector generator host options parent).Refuses σ ns gs := by
  unfold construct
  cases parent with
  | none => exact refuses_buildRoot held ..
  | some p =>
    simp only
    split
    · exact refuses_fill (.sprout σ.store p selector (givenHost host)) _ _ _
    · exact .refuse (.refl σ) _

/-! ### Style sheets -/

/-- The style sheets that are filed in a registry. -/
def filedSheets (σ : Session) (registry : RegistryId) : List NodeId :=
  (σ.filedEntries registry).map Entry.sheet

theorem mem_filedSheets_of_sheet? {registry : RegistryId} {host : Identity} {sheet : NodeId}
    (h : σ.sheet? registry host = some sheet) : sheet ∈ σ.filedSheets registry := by
  unfold sheet? Registry.find? at h
  obtain ⟨entry, he, rfl⟩ := Option.map_eq_some_iff.1 h
  exact List.mem_map_of_mem (List.mem_filter.1 (List.mem_of_find?_eq_some he)).1

/-- A host is looked up, and whether it can be registered found out, before anything is built or
emptied for it. -/
theorem refuses_obtain (hg : σ.Grounded) (held : σ.store.Held) (registry : RegistryId)
    (host generator : Datum) (options : Table Datum) (output : Output) :
    (σ.obtain registry host generator options output).Refuses σ (σ.filedSheets registry)
      [generator] := by
  unfold obtain
  split
  · exact .refuse (.refl σ) _
  split
  · cases σ.asHost host with
    | error e => exact .refuse (.refl σ) e
    | ok i =>
      simp only
      cases hs : σ.sheet? registry i with
      | some sheet =>
        simp only
        cases hr : σ.record .resettingSheet host with
        | error e => exact .refuse (.refl σ) e
        | ok σ₁ =>
          have hf := Follows.of_record hr
          have hn := (Earlier.of_follows hf).announced (hg.sheet hs)
          have key := refuses_reset (hg.follows hf) hn (some registry) output generator
          refine (Start.Refuses.after_beside hf.beside key).mono ?_ (List.Subset.refl _)
          exact List.cons_subset.2 ⟨mem_filedSheets_of_sheet? hs, List.nil_subset _⟩
      | none =>
        simp only
        cases hr : σ.record .buildingSheet host with
        | error e => exact .refuse (.refl σ) e
        | ok σ₁ =>
          have hb := Beside.of_record hr
          simp only
          split
          · exact .refuse (.of_beside hb) _
          · exact .after_beside hb (refuses_buildRoot (hb.store ▸ held) ..)
  · exact .refuse (.refl σ) _

theorem refuses_createWith (hg : σ.Grounded) (held : σ.store.Held) (host : Datum)
    {first second : Datum} (options : Table Datum) (h₁ : first ∈ gs)
    (h₂ : second.isNull = false → second ∈ gs) :
    (σ.createWith host first second options).Refuses σ (σ.filedSheets firstRegistry) gs := by
  have sub {g : Datum} (h : g ∈ gs) : [g] ⊆ gs := List.cons_subset.2 ⟨h, List.nil_subset _⟩
  unfold createWith
  split
  · split
    · exact (refuses_obtain hg held ..).mono (List.Subset.refl _) (sub h₁)
    · exact .refuse (.refl σ) _
  · split
    · rename_i h
      refine (refuses_obtain hg held ..).mono (List.Subset.refl _) (sub (h₂ ?_))
      simpa using h
    · split
      · exact refuses_build held ..
      · exact .refuse (.refl σ) _

theorem refuses_create (hg : σ.Grounded) (held : σ.store.Held) (arguments : List Datum)
    (host : Datum) (options : Table Datum) :
    (σ.create arguments host options).Refuses σ (σ.filedSheets firstRegistry) arguments := by
  unfold create
  split
  · exact .refuse (.refl σ) _
  rcases arguments with _ | ⟨first, _ | ⟨second, _ | ⟨third, rest⟩⟩⟩
  · exact .refuse (.refl σ) _
  · have alone : Datum.null.isNull = false → Datum.null ∈ [first] := nofun
    exact refuses_createWith hg held _ _ (by simp) alone
  · have both : second.isNull = false → second ∈ [first, second] := fun _ => by simp
    exact refuses_createWith hg held _ _ (by simp) both
  · exact .refuse (.refl σ) _

end Session

end RuleTree
