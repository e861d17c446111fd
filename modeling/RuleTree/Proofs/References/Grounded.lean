import RuleTree.Proofs.References.Made
import RuleTree.Proofs.Sheets.Filing

/-!
# Sessions in which nothing refers to what was never made

* `Iteration.data`, `Iteration.Held`: the values that an iteration holds, and that they are parts of
  the value that it is over;
* `Session.Grounded`: whatever is kept refers to what was made and announced; selectors refer to
  older rule sets;
* `Session.Grounded.announced_of_record`: a rule set that was just recorded is announced;
* `Session.Grounded.of_store`, `Session.Grounded.of_madeAs`, `Session.Grounded.of_made`: other rule
  sets in place of these, rule sets that are made as they were, and a new one;
* one lemma for each change of a store, of names, registries and iterations, and for what is kept of
  a result;
* `Session.Grounded.target`: what a statement acts on was made.
-/

namespace RuleTree

/-- The values that an iteration holds. -/
def Iteration.data : Iteration → List Datum
  | items source rest => source :: rest
  | _ => []

/-- Holding nothing but what is kept alive: what is left of a value is part of it. -/
def Iteration.Held (i : Iteration) : Prop := ∀ d ∈ i.data, d.identities ⊆ i.identities

namespace Session

/-- Whatever is kept refers to what was made and announced; selectors refer to older rule sets. -/
structure Grounded (σ : Session) : Prop where
  stamps : 1 < σ.stamps
  selector : ∀ n, σ.Covers (σ.store.get n).selector.identities
  older : ∀ n m, .node m ∈ (σ.store.get n).selector.identities → m < n
  parent : ∀ n p, (σ.store.get n).parent = some p → σ.Announced p
  children : ∀ p, ∀ c ∈ (σ.store.get p).children, σ.Announced c
  host : ∀ n d, (σ.store.get n).host = some d → σ.Covers d.identities
  options : ∀ (id : OptionsId) (o : OptionSet), σ.store.options[id]? = some o → σ.Covers o.links
  names : σ.NamesMade
  handles : ∀ n ∈ σ.handles.values, σ.Announced n
  iterations : ∀ i ∈ σ.iterations.values, ∀ d ∈ i.data, σ.Covers d.identities
  left : ∀ i ∈ σ.iterations.values, i.Held
  sheets : ∀ id, ∀ e ∈ σ.filedEntries id, σ.Announced e.sheet
  purposes : ∀ c ∈ σ.calls, σ.Covers c.purpose.links

/-- What a body is run on is kept alive by its call, or is there for ever. -/
theorem mem_links_or_permanent {purpose : Purpose} {d : Datum} (hs : purpose.subject? = some d)
    {i : Identity} (hi : i ∈ d.identities) : i ∈ purpose.links ∨ i ∈ OptionSet.permanent := by
  cases purpose with
  | select | build | reset =>
    cases hs
    cases List.mem_singleton.1 hi
    exact .inl List.mem_cons_self
  | register =>
    cases hs
    cases List.mem_singleton.1 hi
    exact .inl (List.mem_cons_of_mem _ List.mem_cons_self)
  | name n kind generator callee =>
    cases hs
    exact .inl (List.mem_append_left _ (List.mem_append_left _ (List.mem_cons_of_mem _ hi)))
  | probe n callee listed name rest =>
    cases hs
    exact .inr (List.mem_append_right _ hi)
  | attempt => cases hs

/-- Emptying a rule set for a reset. -/
theorem Earlier.clearForReset (σ : Session) (n : NodeId) :
    σ.Earlier { σ with store := σ.store.clearForReset n } := by
  unfold Store.clearForReset
  split
  · rename_i hc
    exact .of_trail (.single (.cleared n hc))
  · exact .refl σ

namespace Grounded

variable {σ σ₁ : Session}

/-- A later session with the same rule sets and nothing else that is kept. -/
theorem follows (h : σ.Grounded) (hf : σ.Follows σ₁) : σ₁.Grounded := by
  have he := Earlier.of_follows hf
  have hn := h.names.follows hf
  have hk := Nat.lt_of_lt_of_le h.stamps hf.stamps_le
  obtain ⟨_, _, _, _, rfl⟩ := hf.beside
  exact {
    stamps := hk
    selector := fun n => (h.selector n).later he
    older := h.older
    parent := fun n p hp => he.announced (h.parent n p hp)
    children := fun p c hc => he.announced (h.children p c hc)
    host := fun n d hd => (h.host n d hd).later he
    options := fun id o ho => (h.options id o ho).later he
    names := hn
    handles := fun n hn => he.announced (h.handles n hn)
    iterations := fun i hi d hd => (h.iterations i hi d hd).later he
    left := h.left
    sheets := fun id e hm => he.announced (h.sheets id e hm)
    purposes := fun c hc => (h.purposes c hc).later he }

/-- Other rule sets in place of these. -/
theorem of_store (h : σ.Grounded) {store : Store} (he : σ.Earlier { σ with store })
    (selector : ∀ n, ({ σ with store } : Session).Covers (store.get n).selector.identities)
    (older : ∀ n m, .node m ∈ (store.get n).selector.identities → m < n)
    (parent : ∀ n p, (store.get n).parent = some p → ({ σ with store } : Session).Announced p)
    (children : ∀ p, ∀ c ∈ (store.get p).children, ({ σ with store } : Session).Announced c)
    (host : ∀ n d, (store.get n).host = some d →
      ({ σ with store } : Session).Covers d.identities)
    (options : ∀ (id : OptionsId) (o : OptionSet), store.options[id]? = some o →
      ({ σ with store } : Session).Covers o.links) :
    ({ σ with store } : Session).Grounded where
  stamps := h.stamps
  selector := selector
  older := older
  parent := parent
  children := children
  host := host
  options := options
  names := h.names.later he rfl rfl
  handles n hn := he.announced (h.handles n hn)
  iterations i hi d hd := (h.iterations i hi d hd).later he
  left := h.left
  sheets id e hm := he.announced (h.sheets id e hm)
  purposes c hc := (h.purposes c hc).later he

/-- Rule sets that are made as they were, and list what was announced. -/
theorem of_madeAs (h : σ.Grounded) {store : Store} (hn : store.next = σ.store.next)
    (ho : store.options = σ.store.options) (hm : ∀ n, (σ.store.get n).MadeAs (store.get n))
    (hc : ∀ p, ∀ c ∈ (store.get p).children, σ.Announced c) :
    ({ σ with store } : Session).Grounded := by
  have he : σ.Earlier { σ with store } := .of_store (Nat.le_of_eq hn.symm)
    fun n _ => (hm n).selector
  refine h.of_store he (fun n => ?_) (fun n => ?_) (fun n p hp => ?_)
    (fun p c hp => he.announced (hc p c hp)) (fun n d hd => ?_) fun id o h' => ?_
  · rw [(hm n).selector]
    exact (h.selector n).later he
  · rw [(hm n).selector]
    exact h.older n
  · rw [(hm n).parent] at hp
    exact he.announced (h.parent n p hp)
  · rw [(hm n).host] at hd
    exact (h.host n d hd).later he
  · exact (h.options id o (ho ▸ h')).later he

/-- A session stays grounded if a rule set is made from what was made before. -/
theorem of_made (h : σ.Grounded) {store : Store} (hn : store.next = σ.store.next + 1)
    {selector : Datum} {parent : Option NodeId} {host : Option Datum} {id : OptionsId}
    (hs : σ.Covers selector.identities) (hp : ∀ p ∈ parent, σ.Announced p)
    (hh : ∀ d ∈ host, σ.Covers d.identities)
    (new : store.get σ.store.next = .fresh selector parent host id)
    (old : ∀ n ≠ σ.store.next, store.get n = σ.store.get n)
    (options : ∀ (id : OptionsId) (o : OptionSet), store.options[id]? = some o →
      σ.Covers o.links) :
    ({ σ with store } : Session).Grounded := by
  have hle : σ.store.next ≤ store.next := hn ▸ Nat.le_succ _
  have he : σ.Earlier { σ with store } := .of_store hle fun n hlt => by
    rw [show store.get n = _ from old n (Nat.ne_of_lt hlt)]
  refine h.of_store he (fun n => ?_) (fun n m hm => ?_) (fun n p hm => ?_) (fun p c hc => ?_)
    (fun n d hd => ?_) fun id o ho => (options id o ho).later he
  · by_cases e : n = σ.store.next
    · rw [e, new]
      exact hs.later he
    · rw [old n e]
      exact (h.selector n).later he
  · by_cases e : n = σ.store.next
    · rw [e, new] at hm
      exact e ▸ (hs _ hm : σ.Announced m).lt_next
    · rw [old n e] at hm
      exact h.older n m hm
  · by_cases e : n = σ.store.next
    · rw [e, new] at hm
      exact he.announced (hp p hm)
    · rw [old n e] at hm
      exact he.announced (h.parent n p hm)
  · by_cases e : p = σ.store.next
    · rw [e, new] at hc
      cases hc
    · rw [old p e] at hc
      exact he.announced (h.children p c hc)
  · by_cases e : n = σ.store.next
    · rw [e, new] at hd
      exact (hh d hd).later he
    · rw [old n e] at hd
      exact (h.host n d hd).later he

theorem plant (h : σ.Grounded) {selector : Datum} {host : Option Datum} {o : OptionSet}
    (hs : σ.Covers selector.identities) (hh : ∀ d ∈ host, σ.Covers d.identities)
    (ho : σ.Covers o.links) :
    ({ σ with store := σ.store.plant selector host o } : Session).Grounded := by
  refine h.of_made (Store.next_plant ..) hs (nofun : ∀ p ∈ none, _) hh
    ((Store.get_plant ..).trans (if_pos rfl)) (fun n hn => ?_) fun id o' ho' => ?_
  · rw [Store.get_plant, if_neg hn]
  · change (σ.store.options.push o)[id]? = _ at ho'
    rw [Array.getElem?_push] at ho'
    split at ho'
    · cases ho'
      exact ho
    · exact h.options id o' ho'

theorem sprout (h : σ.Grounded) {p : NodeId} {selector : Datum} {host : Option Datum}
    (hp : σ.Announced p) (hs : σ.Covers selector.identities)
    (hh : ∀ d ∈ host, σ.Covers d.identities) :
    ({ σ with store := σ.store.sprout p selector host } : Session).Grounded := by
  refine h.of_made (Store.next_sprout ..) hs (fun q hq => ?_) hh
    ((Store.get_sprout ..).trans (if_pos rfl)) (fun n hn => ?_) h.options
  · cases (Option.filter_eq_some_iff.1 hq).1
    exact hp
  · rw [Store.get_sprout, if_neg hn]

theorem append (h : σ.Grounded) (n : NodeId) (t : String) :
    ({ σ with store := { σ.store with forest := σ.store.forest.append n t } } : Session).Grounded := by
  refine h.of_madeAs (Store.next_append ..) rfl (fun m => ?_) fun p c hc => h.children p c ?_
  · rw [Store.get_append]
    split <;> exact ⟨rfl, rfl, rfl, rfl⟩
  · rw [Store.get_append] at hc
    split at hc <;> exact hc

theorem write (h : σ.Grounded) {n : NodeId} {d : Datum} {store : Store}
    (hw : σ.store.write n d = .ok store) : ({ σ with store } : Session).Grounded := by
  obtain ⟨t, rfl⟩ := Store.exists_text_of_write hw
  cases Store.becomes_of_write hw
  exact h.append n t

theorem define (h : σ.Grounded) (n : NodeId) (name t : String) :
    ({ σ with store := { σ.store with forest := σ.store.forest.define n name t } } :
      Session).Grounded := by
  refine h.of_madeAs (Store.next_define ..) rfl (fun m => ?_) fun p c hc => h.children p c ?_
  · rw [Store.get_define]
    split <;> exact ⟨rfl, rfl, rfl, rfl⟩
  · rw [Store.get_define] at hc
    split at hc <;> exact hc

theorem attach (h : σ.Grounded) {c : NodeId} (hc : σ.Announced c) :
    ({ σ with store := σ.store.attach c } : Session).Grounded := by
  refine h.of_madeAs (Store.next_attach ..) rfl (fun m => ?_) fun p d hd => ?_
  · rw [Store.get_attach]
    split <;> exact ⟨rfl, rfl, rfl, rfl⟩
  · rw [Store.get_attach] at hd
    split at hd
    · rcases List.mem_append.1 hd with hd | hd
      · exact h.children p d hd
      · exact List.mem_singleton.1 hd ▸ hc
    · exact h.children p d hd

theorem clearForReset (h : σ.Grounded) (n : NodeId) :
    ({ σ with store := σ.store.clearForReset n } : Session).Grounded := by
  unfold Store.clearForReset
  split
  · refine h.of_madeAs (Store.next_clear ..) rfl (fun m => ?_) fun p c hc => ?_
    · rw [Store.get_clear]
      split <;> exact ⟨rfl, rfl, rfl, rfl⟩
    · rw [Store.get_clear] at hc
      split at hc
      · cases hc
      · exact h.children p c hc
  · exact h

theorem setOption (h : σ.Grounded) (n : NodeId) (name : String) {d : Datum}
    (hd : σ.Covers d.identities) :
    ({ σ with store := σ.store.setOption n name d } : Session).Grounded := by
  have he : σ.Earlier { σ with store := σ.store.setOption n name d } :=
    .of_trail (.single (.optionSet n name d))
  refine h.of_store he (fun n => (h.selector n).later he) h.older
    (fun n p hp => he.announced (h.parent n p hp)) (fun p c hc => he.announced (h.children p c hc))
    (fun n d hd => (h.host n d hd).later he) fun id o ho => Covers.later ?_ he
  change (σ.store.options.modify _ _)[id]? = _ at ho
  rw [Array.getElem?_modify] at ho
  split at ho
  · obtain ⟨o', ho', rfl⟩ := Option.map_eq_some_iff.1 ho
    intro i hi
    exact (OptionSet.mem_links_of_set hi).elim (h.options id o' ho' i) (hd i)
  · exact h.options id o ho

/-- The options of a rule set refer to what was made. -/
theorem optionsOf (h : σ.Grounded) (n : NodeId) : σ.Covers (σ.store.optionsOf n).links := by
  unfold Store.optionsOf
  cases ho : σ.store.options[(σ.store.get n).options]? with
  | none => exact .made (Nat.lt_trans Nat.zero_lt_one h.stamps)
  | some o => exact h.options _ o ho

theorem className (h : σ.Grounded) (n : NodeId) :
    σ.Covers (σ.store.optionsOf n).className.identities :=
  (h.optionsOf n).of_subset fun _ hi => List.mem_append_left _ (List.mem_append_right _ hi)

/-- What is there for ever was made. -/
theorem permanent (h : σ.Grounded) : σ.Covers OptionSet.permanent :=
  (Covers.made (Nat.lt_trans Nat.zero_lt_one h.stamps)).append (.made h.stamps)

/-- What a statement acts on was made. -/
theorem target (h : σ.Grounded) (t : Target) : σ.Covers (σ.target t).identities := by
  cases t with
  | handle name =>
    show σ.Covers (((σ.handles.find? name).map Datum.node).getD .null).identities
    cases hf : σ.handles.find? name with
    | none => exact .nil σ
    | some n =>
      intro i hi
      cases List.mem_singleton.1 hi
      exact h.handles n (mem_values_of_find? hf)
  | enclosing depth =>
    show σ.Covers (((σ.calls.filterMap fun c : Call => c.purpose.subject?)[depth]?).getD
      Datum.null).identities
    cases hf : (σ.calls.filterMap fun c : Call => c.purpose.subject?)[depth]? with
    | none => exact .nil σ
    | some d =>
      obtain ⟨c, hc, hs⟩ := List.mem_filterMap.1 (List.mem_of_getElem? hf)
      exact fun i hi => (mem_links_or_permanent hs hi).elim (h.purposes c hc i) (h.permanent i)

/-- A rule set that a statement acts on was announced. -/
theorem announced_target (h : σ.Grounded) {t : Target} {n : NodeId} (ht : σ.target t = .node n) :
    σ.Announced n := by
  have hc := h.target t
  rw [ht] at hc
  exact hc (.node n) List.mem_cons_self

/-! ### Showing rule sets -/

/-- A rule set can be shown if its selector can. -/
theorem label_agree (h : σ.Grounded) (n : NodeId) :
    Agree (σ.store.label σ.hostName n) ((σ.store.get n).selector.label σ.appearance) := by
  -- the scope can always be shown, and the selector refers to older rule sets only
  have key : Agree ((σ.store.get n).selector.label ⟨σ.hostName,
      fun m => if _h : m < n then σ.store.label σ.hostName m else .ok "", fun _ => .ok []⟩)
      ((σ.store.get n).selector.label σ.appearance) := by
    refine Datum.label_agree_of_bare rfl fun m hm => ?_
    simp only [h.older n m hm, dite_true]
    exact .refl _
  obtain ⟨scope, hscope⟩ := Store.exists_label_scope (σ.store.get n) ⟨σ.hostName,
    fun m => if _h : m < n then σ.store.label σ.hostName m else .ok "", fun _ => .ok []⟩
  rw [Store.label]
  unfold RuleSet.label
  rw [hscope]
  rcases key.cases_on with ⟨e, he, he'⟩ | ⟨t, t', ht, ht'⟩
  · rw [he, he']
    exact .error e
  · rw [ht, ht']
    exact .ok _ _

/-- A rule set that was just recorded is announced. -/
theorem announced_of_record (h : σ.Grounded) {n : NodeId} (hn : n < σ.store.next)
    {event : LogEvent} (hr : σ.record event (σ.store.get n).selector = .ok σ₁) :
    σ₁.Announced n := by
  refine (Earlier.of_follows (.of_record hr)).announced ⟨hn, fun hl => ?_⟩
  obtain ⟨records, hlog⟩ := Option.isSome_iff_exists.1 hl
  unfold record at hr
  rw [hlog] at hr
  rcases (h.label_agree n).cases_on with ⟨e, -, he⟩ | ⟨t, -, ht, -⟩
  · rw [he] at hr
    cases hr
  · exact ⟨t, ht⟩

/-- A rule set that was announced can be recorded again. -/
theorem exists_record (h : σ.Grounded) {n : NodeId} (hn : σ.Announced n) (event : LogEvent) :
    ∃ σ₁, σ.record event (σ.store.get n).selector = .ok σ₁ := by
  unfold record
  cases hlog : σ.log with
  | none => exact ⟨_, rfl⟩
  | some records =>
    obtain ⟨t, ht⟩ := hn.2 (by rw [hlog]; rfl)
    rcases (h.label_agree n).cases_on with ⟨e, he, -⟩ | ⟨-, t', -, ht'⟩
    · cases ht.symm.trans he
    · simp only [ht']
      exact ⟨_, rfl⟩

/-! ### Names, registries and iterations -/


theorem drop (h : σ.Grounded) (handle : String) :
    ({ σ with handles := σ.handles.erase handle } : Session).Grounded :=
  { h with
    names := h.names.later (.of_kept rfl rfl rfl rfl rfl rfl) rfl rfl
    handles := fun n hn => h.handles n (mem_values_of_mem_erase hn) }

theorem dropHost (h : σ.Grounded) (name : String) :
    ({ σ with hostNames := σ.hostNames.erase name } : Session).Grounded :=
  { h with
    names :=
      { h.names with hosts := fun id hid => h.names.hosts id (mem_values_of_mem_erase hid) } }

theorem makeHost (h : σ.Grounded) (name : String) (kind : HostKind Datum) :
    σ.Earlier (σ.makeHost name kind) ∧ (σ.makeHost name kind).Grounded := by
  have he : σ.Earlier (σ.makeHost name kind) :=
    ⟨rfl, rfl, Nat.le_refl _, Nat.le_refl _, fun _ _ => rfl, ⟨#[_], Array.push_eq_append⟩,
      ⟨#[], Array.append_empty.symm⟩⟩
  refine ⟨he, ?_⟩
  exact {
    stamps := h.stamps
    selector := fun n => (h.selector n).later he
    older := h.older
    parent := fun n p hp => he.announced (h.parent n p hp)
    children := fun p c hc => he.announced (h.children p c hc)
    host := fun n d hd => (h.host n d hd).later he
    options := fun id o ho => (h.options id o ho).later he
    names := {
      hosts := fun id hid => by
        rcases mem_values_insert hid with rfl | hid
        · show σ.hosts.size < (σ.hosts.push _).size
          rw [Array.size_push]
          exact Nat.lt_succ_self _
        · exact he.has (h.names.hosts id hid)
      saved := fun d hd => (h.names.saved d hd).later he }
    handles := fun n hn => he.announced (h.handles n hn)
    iterations := fun i hi d hd => (h.iterations i hi d hd).later he
    left := h.left
    sheets := fun id e hm => he.announced (h.sheets id e hm)
    purposes := fun c hc => (h.purposes c hc).later he }

theorem makeRegistry (h : σ.Grounded) (name : String) : (σ.makeRegistry name).1.Grounded :=
  { h with
    names := h.names.later (.of_kept rfl rfl rfl rfl rfl rfl) rfl rfl
    sheets := fun id e he => h.sheets id e (σ.filedEntries_push id ▸ he) }

theorem withRegistry (h : σ.Grounded) (name : String) : (σ.withRegistry name).1.Grounded := by
  unfold Session.withRegistry
  split
  · exact h
  · exact h.makeRegistry name

theorem setEntries (h : σ.Grounded) (id : RegistryId) {entries : Registry}
    (he : ∀ e ∈ entries, σ.Announced e.sheet) : (σ.setEntries id entries).Grounded :=
  { h with
    names := h.names.later (.of_kept rfl rfl rfl rfl rfl rfl) rfl rfl
    sheets := fun id' e h' => by
      rw [filedEntries_setEntries] at h'
      split at h'
      · exact he e h'
      · exact h.sheets id' e h' }

/-- The sheets of a registry were announced. -/
theorem sheet (h : σ.Grounded) {id : RegistryId} {host : Identity} {sheet : NodeId}
    (hs : σ.sheet? id host = some sheet) : σ.Announced sheet := by
  unfold sheet? Registry.find? at hs
  obtain ⟨e, he, rfl⟩ := Option.map_eq_some_iff.1 hs
  exact h.sheets id e (List.mem_filter.1 (List.mem_of_find?_eq_some he)).1

theorem covers_sheet? (h : σ.Grounded) (id : RegistryId) (host : Identity) :
    σ.Covers (Result.node? (σ.sheet? id host)).datum.identities := by
  cases hs : σ.sheet? id host with
  | none => exact .nil σ
  | some sheet => exact .cons (i := .node sheet) (h.sheet hs) (.nil σ)

/-- A session stays grounded if an iteration that holds only what was made is entered. -/
theorem iterate (h : σ.Grounded) (name : String) {i : Iteration}
    (hi : ∀ d ∈ i.data, σ.Covers d.identities) (hl : i.Held) :
    ({ σ with iterations := σ.iterations.insert name i } : Session).Grounded :=
  { h with
    names := h.names.later (.of_kept rfl rfl rfl rfl rfl rfl) rfl rfl
    iterations := fun j hj d hd => by
      rcases mem_values_insert hj with rfl | hj
      · exact hi d hd
      · exact h.iterations j hj d hd
    left := fun j hj => by
      rcases mem_values_insert hj with rfl | hj
      · exact hl
      · exact h.left j hj }

/-! ### Results -/

/-- A session stays grounded with other calls in progress whose purposes refer only to what was
made. -/
theorem of_calls (h : σ.Grounded) {calls : List Call}
    (hc : ∀ c ∈ calls, σ.Covers c.purpose.links) : ({ σ with calls } : Session).Grounded :=
  { h with
    names := h.names.later (.of_kept rfl rfl rfl rfl rfl rfl) rfl rfl
    purposes := hc }

/-- A session stays grounded if a result is kept that refers only to what was made. -/
theorem keep (h : σ.Grounded) (tag : Tag) {r : Result}
    (hr : σ.Covers r.datum.identities) : (Machine.keep σ tag r).Grounded :=
  { h with
    names := {
      hosts := h.names.hosts
      saved := fun d hd => by
        unfold Machine.keep at hd
        simp only at hd
        split at hd
        · rcases mem_values_insert hd with rfl | hd
          · exact hr
          · exact h.names.saved d hd
        · exact h.names.saved d hd }
    handles := fun n hn => by
      unfold Machine.keep at hn
      simp only at hn
      split at hn
      · rename_i m _ _
        rcases mem_values_insert hn with rfl | hn
        · exact hr _ List.mem_cons_self
        · exact h.handles n hn
      · exact h.handles n hn }

theorem keepResult (h : σ.Grounded) (tag : Tag) {r : Except Error Result}
    (hr : ∀ a, r = .ok a → σ.Covers a.datum.identities) :
    (Machine.keepResult σ tag r).Grounded := by
  cases r with
  | error e => exact h
  | ok a => exact h.keep tag (hr a rfl)

end Grounded

end Session

end RuleTree
