import RuleTree.Proofs.References.Runs
import RuleTree.Proofs.Sheets.Sound

/-!
# What can be referred to from now on

* `Session.Made`: what was made so far;
* `Session.Closed`: a property of all that is alive and of all that is not made yet, which is passed
  on along links, and from hosts to their style sheets;
* `Session.Closed.living`: being alive, or not made yet, is such a property;
* `Session.Closed.later`: so it stays if nothing that lacks it comes to be linked to, or to live by
  itself;
* one lemma for each change of a store, of names, registries and iterations, and for what is kept of
  a result.

What lacks such a property is dead, and nothing that lacks it becomes alive again: the entries of
registries that would keep each other alive would have done so before.
-/

namespace RuleTree

namespace Session

variable {σ σ₁ : Session} {P : Identity → Prop} {i : Identity}

/-! ### What was made -/

/-- Having been made. Objects are numbered in the order in which they are made. -/
def Made (σ : Session) : Identity → Prop
  | .node n => n < σ.store.next
  | .host h => h < σ.hosts.size
  | .generator (.inline id) => id < σ.bodies.size
  | .generator (.named _) => True
  | .made k => k < σ.stamps

theorem made_of_has (h : σ.Has i) : σ.Made i := by
  cases i with
  | node n => exact Announced.lt_next h
  | host id => exact h
  | generator g => cases g <;> exact h
  | made k => exact h

theorem Earlier.made (h : σ.Earlier σ₁) (hi : σ.Made i) : σ₁.Made i := by
  cases i with
  | node n => exact Nat.lt_of_lt_of_le hi h.next_le
  | host id =>
    obtain ⟨_, ha⟩ := h.hosts
    show id < σ₁.hosts.size
    rw [ha, Array.size_append]
    exact Nat.lt_add_right _ hi
  | generator g =>
    cases g with
    | named => trivial
    | inline id =>
      obtain ⟨_, ha⟩ := h.bodies
      show id < σ₁.bodies.size
      rw [ha, Array.size_append]
      exact Nat.lt_add_right _ hi
  | made k => exact Nat.lt_of_lt_of_le hi h.stamps_le

/-- What was not made links to nothing. -/
theorem links_of_not_made (h : ¬ σ.Made i) : σ.links i = [] := by
  refine links_eq_nil_of_number? i (Option.eq_none_iff_forall_ne_some.2 fun k hk => ?_)
  rcases number?_eq_some_iff.1 hk with ⟨rfl, hn⟩ | ⟨id, rfl, hid, -⟩
  · exact h hn
  · exact h hid

theorem mem_links_node {n : NodeId} (hn : n < σ.store.next) :
    i ∈ σ.links (.node n) ↔ i ∈ σ.store.links n := by
  show i ∈ (if n < σ.store.next then σ.store.links n else []) ↔ _
  rw [if_pos hn]

theorem mem_links_host {id : HostId} :
    i ∈ σ.links (.host id) ↔ ∃ key, σ.hostKind id = .equal key ∧ i ∈ key.identities := by
  simp only [links, hostKind]
  cases hh : σ.hosts[id]? with
  | none => simp
  | some host =>
    obtain ⟨name, kind, like, hasHash⟩ := host
    cases kind <;> simp

/-! ### Entries that last -/

/-- The host of an entry that lasts is alive. -/
theorem has_host_of_mem_lasting {entries : List Entry} {e : Entry} (he : e ∈ σ.lasting entries) :
    (σ.livingWith (σ.lasting entries)).has e.host = true := by
  induction entries using lasting.induct σ with
  | case1 entries hlt ih =>
    unfold lasting at he ⊢
    rw [dif_pos hlt] at he ⊢
    exact ih he
  | case2 entries hlt =>
    unfold lasting at he ⊢
    rw [dif_neg hlt] at he ⊢
    have hall : σ.supported entries = entries :=
      List.filter_sublist.eq_of_length_le (Nat.not_lt.1 hlt)
    have hmem : e ∈ σ.supported entries := by rwa [hall]
    exact (List.mem_filter.1 hmem).2

/-- Entries that keep each other's hosts alive last. -/
theorem subset_lasting {entries some : List Entry} (hs : some ⊆ entries)
    (h : ∀ e ∈ some, (σ.livingWith some).has e.host = true) : some ⊆ σ.lasting entries := by
  induction entries using lasting.induct σ with
  | case1 entries hlt ih =>
    unfold lasting
    rw [dif_pos hlt]
    exact ih fun e he => List.mem_filter.2 ⟨hs he, has_livingWith_mono hs (h e he)⟩
  | case2 entries hlt =>
    unfold lasting
    rwa [dif_neg hlt]

/-- An entry lasts just if its host is alive. -/
theorem mem_lasting_openEntries {e : Entry} (he : e ∈ σ.openEntries) :
    e ∈ σ.lasting σ.openEntries ↔ σ.alive e.host = true :=
  ⟨has_host_of_mem_lasting, mem_lasting he⟩

/-- What entries that last are for is alive. -/
theorem alive_of_mem_lasting {e : Entry} (he : e ∈ σ.lasting σ.openEntries) :
    σ.alive (.node e.sheet) = true :=
  has_livingWith_iff.2 (.inr (.start (List.mem_append_right _
    (List.mem_map_of_mem (f := fun e : Entry => Identity.node e.sheet) he))))

theorem alive_of_mem_links {j : Identity} (h : σ.alive i = true) (hj : j ∈ σ.links i) :
    σ.alive j = true := by
  rcases has_livingWith_iff.1 h with ⟨name, rfl⟩ | hl
  · cases hj
  · exact has_livingWith_iff.2 (.inr (.link hl hj))

/-! ### What lives by itself -/

/-- A property of everything that lives by itself. -/
structure Rooted (σ : Session) (P : Identity → Prop) : Prop where
  permanent : ∀ i ∈ OptionSet.permanent, P i
  handles : ∀ n ∈ σ.handles.values, P (.node n)
  saved : ∀ d ∈ σ.saved.values, ∀ i ∈ d.identities, P i
  hostNames : ∀ h ∈ σ.hostNames.values, P (.host h)
  calls : ∀ c ∈ σ.calls, ∀ i ∈ c.links, P i
  iterations : ∀ it ∈ σ.iterations.values, ∀ i ∈ it.identities, P i

theorem rooted_iff : σ.Rooted P ↔ ∀ i ∈ σ.roots, P i := by
  constructor
  · intro h i hi
    unfold roots at hi
    simp only [List.mem_append, List.mem_map, List.mem_flatMap] at hi
    rcases hi with ((((hi | ⟨n, hn, rfl⟩) | ⟨d, hd, hi⟩) | ⟨id, hid, rfl⟩) | ⟨c, hc, hi⟩) | ⟨it, hit, hi⟩
    · exact h.permanent i hi
    · exact h.handles n hn
    · exact h.saved d hd i hi
    · exact h.hostNames id hid
    · exact h.calls c hc i hi
    · exact h.iterations it hit i hi
  · intro h
    have hmem {i : Identity} (hi : i ∈ OptionSet.permanent ∨ i ∈ σ.handles.values.map .node ∨
        i ∈ σ.saved.values.flatMap Datum.identities ∨ i ∈ σ.hostNames.values.map .host ∨
        i ∈ σ.calls.flatMap Call.links ∨ i ∈ σ.iterations.values.flatMap Iteration.identities) :
        P i := by
      refine h i ?_
      unfold roots
      simp only [List.mem_append]
      tauto
    exact {
      permanent := fun i hi => hmem (.inl hi)
      handles := fun n hn => hmem (.inr (.inl (List.mem_map_of_mem hn)))
      saved := fun d hd i hi => hmem (.inr (.inr (.inl (List.mem_flatMap.2 ⟨d, hd, hi⟩))))
      hostNames := fun id hid => hmem (.inr (.inr (.inr (.inl (List.mem_map_of_mem hid)))))
      calls := fun c hc i hi =>
        hmem (.inr (.inr (.inr (.inr (.inl (List.mem_flatMap.2 ⟨c, hc, hi⟩))))))
      iterations := fun it hit i hi =>
        hmem (.inr (.inr (.inr (.inr (.inr (List.mem_flatMap.2 ⟨it, hit, hi⟩)))))) }

/-! ### Closed properties -/

/-- Whatever is alive has the property, and so has whatever is not made yet. It is passed on along
links, and from hosts to their style sheets. -/
structure Closed (σ : Session) (P : Identity → Prop) : Prop where
  alive : ∀ i, σ.alive i = true → P i
  ahead : ∀ i, ¬ σ.Made i → P i
  links : ∀ i, P i → ∀ j ∈ σ.links i, P j
  sheets : ∀ e ∈ σ.openEntries, P e.host → P (.node e.sheet)

/-- Being alive, or not made yet, is such a property. -/
theorem Closed.living (hm : ∀ e ∈ σ.openEntries, σ.Made e.host) :
    σ.Closed fun i => σ.alive i = true ∨ ¬ σ.Made i where
  alive _ h := .inl h
  ahead _ h := .inr h
  links i hi j hj := by
    rcases hi with hi | hi
    · exact .inl (alive_of_mem_links hi hj)
    · rw [links_of_not_made hi] at hj
      cases hj
  sheets e he hi := by
    rcases hi with hi | hi
    · exact .inl (alive_of_mem_lasting ((mem_lasting_openEntries he).2 hi))
    · exact absurd (hm e he) hi

namespace Closed

theorem rooted (h : σ.Closed P) : σ.Rooted P :=
  rooted_iff.2 fun i hi => h.alive i (alive_of_mem_roots hi)

/-- A property stays closed if nothing that lacks it comes to be linked to, to live by itself, or to
be kept as a style sheet. -/
theorem later (h : σ.Closed P) (he : σ.Earlier σ₁) (hr : σ₁.Rooted P)
    (hl : ∀ i, ∀ j ∈ σ₁.links i, j ∈ σ.links i ∨ P j)
    (ho : ∀ e ∈ σ₁.openEntries, e ∈ σ.openEntries ∨ P (.node e.sheet)) : σ₁.Closed P := by
  have links (i : Identity) (hi : P i) (j : Identity) (hj : j ∈ σ₁.links i) : P j :=
    (hl i j hj).elim (h.links i hi j) id
  have named (name : String) : P (.generator (.named name)) :=
    h.alive _ (has_livingWith_iff.2 (.inl ⟨name, rfl⟩))
  -- the entries that last although their sheets lack the property would have lasted before
  have lasts (e : Entry) (hlast : e ∈ σ₁.lasting σ₁.openEntries) : P (.node e.sheet) := by
    classical
    let lacking := (σ₁.lasting σ₁.openEntries).filter fun e => ¬ P (.node e.sheet)
    have hopen : lacking ⊆ σ.openEntries := fun e he => by
      obtain ⟨hlast, hp⟩ := List.mem_filter.1 he
      exact (ho e (σ₁.lasting_subset _ hlast)).resolve_right (of_decide_eq_true hp)
    have reached (i : Identity) (hi : Linked σ₁.links (σ₁.roots ++
        (σ₁.lasting σ₁.openEntries).map fun e => .node e.sheet) i) (hp : ¬ P i) :
        Linked σ.links (σ.roots ++ lacking.map fun e => .node e.sheet) i := by
      induction hi with
      | start hi =>
        rcases List.mem_append.1 hi with hi | hi
        · exact absurd (rooted_iff.1 hr _ hi) hp
        · obtain ⟨e, he, rfl⟩ := List.mem_map.1 hi
          exact .start (List.mem_append_right _ (List.mem_map_of_mem
            (f := fun e : Entry => Identity.node e.sheet) (List.mem_filter.2 ⟨he, by simpa using hp⟩)))
      | @link x y _ hy ih =>
        have hy' := (hl x y hy).resolve_right hp
        exact .link (ih fun hx => hp (h.links x hx y hy')) hy'
    have hsupport : lacking ⊆ σ.lasting σ.openEntries := subset_lasting hopen fun e he => by
      obtain ⟨hlast, hp⟩ := List.mem_filter.1 he
      have hhost : ¬ P e.host := fun hh => of_decide_eq_true hp (h.sheets e (hopen he) hh)
      rcases has_livingWith_iff.1 (has_host_of_mem_lasting hlast) with ⟨name, hn⟩ | hk
      · exact absurd (hn ▸ named name) hhost
      · exact has_livingWith_iff.2 (.inr (reached _ hk hhost))
    by_contra hp
    exact hp (h.alive _ (alive_of_mem_lasting
      (hsupport (List.mem_filter.2 ⟨hlast, decide_eq_true hp⟩))))
  refine ⟨fun i hi => ?_, fun i hi => h.ahead i fun hm => hi (he.made hm), links, fun e hm hh =>
    (ho e hm).elim (fun hm => h.sheets e hm hh) id⟩
  rcases has_livingWith_iff.1 hi with ⟨name, rfl⟩ | hk
  · exact named name
  · induction hk with
    | start hs =>
      rcases List.mem_append.1 hs with hs | hs
      · exact rooted_iff.1 hr _ hs
      · obtain ⟨e, hlast, rfl⟩ := List.mem_map.1 hs
        exact lasts e hlast
    | @link x y hx hy ih => exact links x (ih (has_livingWith_iff.2 (.inr hx))) y hy

/-! ### Rule sets -/

/-- Other rule sets in place of these. -/
theorem of_store (h : σ.Closed P) {store : Store} (he : σ.Earlier { σ with store })
    (hl : ∀ n < store.next, ∀ i ∈ store.links n,
      (n < σ.store.next ∧ i ∈ σ.store.links n) ∨ P i) : ({ σ with store } : Session).Closed P := by
  refine h.later he { h.rooted with } (fun i j hj => ?_) fun e he => .inl he
  cases i with
  | node n =>
    by_cases hn : n < store.next
    · exact (hl n hn j ((mem_links_node (σ := { σ with store }) hn).1 hj)).imp_left fun hj =>
        (mem_links_node hj.1).2 hj.2
    · rw [links_of_not_made (σ := { σ with store }) (i := .node n) hn] at hj
      cases hj
  | _ => exact .inl hj

/-- The options of a rule set that has the property refer to what has it. -/
theorem optionsOf (h : σ.Closed P) {n : NodeId} (hn : n < σ.store.next) (hp : P (.node n)) :
    ∀ i ∈ (σ.store.optionsOf n).links, P i := fun i hi =>
  h.links _ hp i ((mem_links_node hn).2 (List.mem_append_right _ hi))

/-- What a rule set refers to has the property as well. -/
theorem ruleSet (h : σ.Closed P) {n : NodeId} (hn : n < σ.store.next) (hp : P (.node n)) :
    ∀ i ∈ (σ.store.get n).links, P i := fun i hi =>
  h.links _ hp i ((mem_links_node hn).2 (List.mem_append_left _ hi))

/-- Rule sets that are made as they were, and list nothing that lacks the property. -/
theorem of_madeAs (h : σ.Closed P) {store : Store} (hn : store.next = σ.store.next)
    (ho : store.options = σ.store.options) (hm : ∀ n, (σ.store.get n).MadeAs (store.get n))
    (hc : ∀ n, ∀ c ∈ (store.get n).children, c ∈ (σ.store.get n).children ∨ P (.node c)) :
    ({ σ with store } : Session).Closed P := by
  refine h.of_store (.of_store (Nat.le_of_eq hn.symm) fun n _ => (hm n).selector)
    fun n hlt i hi => ?_
  rw [hn] at hlt
  unfold Store.links Store.optionsOf RuleSet.links at hi ⊢
  rw [(hm n).selector, (hm n).host, (hm n).options, ho] at hi
  simp only [List.mem_append, List.mem_map] at hi ⊢
  rcases hi with ((⟨c, hc', rfl⟩ | hi) | hi) | hi
  · exact (hc n c hc').imp_left fun hc => ⟨hlt, .inl (.inl (.inl ⟨c, hc, rfl⟩))⟩
  · exact .inl ⟨hlt, .inl (.inl (.inr hi))⟩
  · exact .inl ⟨hlt, .inl (.inr hi)⟩
  · exact .inl ⟨hlt, .inr hi⟩

/-- A new rule set, the options of which may be new too. -/
theorem of_made (h : σ.Closed P) {store : Store} (he : σ.Earlier { σ with store })
    (hn : store.next = σ.store.next + 1) {selector : Datum} {parent : Option NodeId}
    {host : Option Datum} {id : OptionsId} (hs : ∀ i ∈ selector.identities, P i)
    (hh : ∀ d ∈ host, ∀ i ∈ d.identities, P i)
    (new : store.get σ.store.next = .fresh selector parent host id)
    (old : ∀ n ≠ σ.store.next, store.get n = σ.store.get n)
    (own : ∀ i ∈ (store.optionsOf σ.store.next).links, P i)
    (options : ∀ n < σ.store.next, ∀ i ∈ (store.optionsOf n).links,
      i ∈ (σ.store.optionsOf n).links ∨ P i) : ({ σ with store } : Session).Closed P := by
  refine h.of_store he fun n hlt i hi => ?_
  rw [hn] at hlt
  rcases Nat.lt_succ_iff_lt_or_eq.1 hlt with hlt | rfl
  · rcases List.mem_append.1 hi with hi | hi
    · rw [old n (Nat.ne_of_lt hlt)] at hi
      exact .inl ⟨hlt, List.mem_append_left _ hi⟩
    · exact (options n hlt i hi).imp_left fun hi => ⟨hlt, List.mem_append_right _ hi⟩
  · refine .inr ?_
    rcases List.mem_append.1 hi with hi | hi
    · rw [new] at hi
      rcases List.mem_append.1 hi with hi | hi
      · exact hs i hi
      · obtain ⟨d, hd, hi⟩ := List.mem_flatMap.1 hi
        refine hh d (Option.mem_toList.1 hd) i ?_
        unfold RuleSet.hostLinks at hi
        split at hi
        · cases hi
        · exact hi
    · exact own i hi

theorem plant (h : σ.Closed P) {selector : Datum} {host : Option Datum} {o : OptionSet}
    (hs : ∀ i ∈ selector.identities, P i) (hh : ∀ d ∈ host, ∀ i ∈ d.identities, P i)
    (ho : ∀ i ∈ o.links, P i) :
    ({ σ with store := σ.store.plant selector host o } : Session).Closed P := by
  have options (id : OptionsId) (i : Identity)
      (hi : i ∈ ((σ.store.options.push o)[id]?.getD default).links) :
      i ∈ (σ.store.options[id]?.getD default).links ∨ P i := by
    rw [Array.getElem?_push] at hi
    split at hi
    · exact .inr (ho i hi)
    · exact .inl hi
  have new := (Store.get_plant σ.store selector host o σ.store.next).trans (if_pos rfl)
  have old (n : NodeId) (hn : n ≠ σ.store.next) :
      (σ.store.plant selector host o).get n = σ.store.get n :=
    (Store.get_plant ..).trans (if_neg hn)
  refine h.of_made (.of_trail (.single (.planted ..))) (Store.next_plant ..) hs hh new old ?_ ?_
  · intro i hi
    refine ho i ?_
    unfold Store.optionsOf at hi
    rw [new] at hi
    simpa [Store.plant, RuleSet.fresh] using hi
  · intro n hn i hi
    unfold Store.optionsOf at hi
    rw [old n (Nat.ne_of_lt hn)] at hi
    exact options _ i hi

theorem sprout (h : σ.Closed P) {p : NodeId} {selector : Datum} {host : Option Datum}
    (hn : p < σ.store.next) (hp : P (.node p)) (hs : ∀ i ∈ selector.identities, P i)
    (hh : ∀ d ∈ host, ∀ i ∈ d.identities, P i) :
    ({ σ with store := σ.store.sprout p selector host } : Session).Closed P := by
  have new := (Store.get_sprout σ.store p selector host σ.store.next).trans (if_pos rfl)
  have old (n : NodeId) (hn : n ≠ σ.store.next) :
      (σ.store.sprout p selector host).get n = σ.store.get n :=
    (Store.get_sprout ..).trans (if_neg hn)
  refine h.of_made (.of_trail (.single (.sprouted p selector host none nofun)))
    (Store.next_sprout ..) hs hh new old ?_ ?_
  · intro i hi
    refine h.optionsOf hn hp i ?_
    unfold Store.optionsOf at hi
    rw [new] at hi
    exact hi
  · intro n hn i hi
    unfold Store.optionsOf at hi
    rw [old n (Nat.ne_of_lt hn)] at hi
    exact .inl hi

theorem append (h : σ.Closed P) (n : NodeId) (t : String) :
    ({ σ with store := { σ.store with forest := σ.store.forest.append n t } } : Session).Closed P := by
  refine h.of_madeAs (Store.next_append ..) rfl (fun m => ?_) fun p c hc => .inl ?_
  · rw [Store.get_append]
    split <;> exact ⟨rfl, rfl, rfl, rfl⟩
  · rw [Store.get_append] at hc
    split at hc <;> exact hc

theorem write (h : σ.Closed P) {n : NodeId} {d : Datum} {store : Store}
    (hw : σ.store.write n d = .ok store) : ({ σ with store } : Session).Closed P := by
  obtain ⟨t, rfl⟩ := Store.exists_text_of_write hw
  cases Store.becomes_of_write hw
  exact h.append n t

theorem define (h : σ.Closed P) (n : NodeId) (name t : String) :
    ({ σ with store := { σ.store with forest := σ.store.forest.define n name t } } :
      Session).Closed P := by
  refine h.of_madeAs (Store.next_define ..) rfl (fun m => ?_) fun p c hc => .inl ?_
  · rw [Store.get_define]
    split <;> exact ⟨rfl, rfl, rfl, rfl⟩
  · rw [Store.get_define] at hc
    split at hc <;> exact hc

theorem attach (h : σ.Closed P) {c : NodeId} (hc : P (.node c)) :
    ({ σ with store := σ.store.attach c } : Session).Closed P := by
  refine h.of_madeAs (Store.next_attach ..) rfl (fun m => ?_) fun p d hd => ?_
  · rw [Store.get_attach]
    split <;> exact ⟨rfl, rfl, rfl, rfl⟩
  · rw [Store.get_attach] at hd
    split at hd
    · exact (List.mem_append.1 hd).imp_right fun hd => by rwa [List.mem_singleton.1 hd]
    · exact .inl hd

theorem clearForReset (h : σ.Closed P) (n : NodeId) :
    ({ σ with store := σ.store.clearForReset n } : Session).Closed P := by
  unfold Store.clearForReset
  split
  · refine h.of_madeAs (Store.next_clear ..) rfl (fun m => ?_) fun p c hc => ?_
    · rw [Store.get_clear]
      split <;> exact ⟨rfl, rfl, rfl, rfl⟩
    · rw [Store.get_clear] at hc
      split at hc
      · cases hc
      · exact .inl hc
  · exact h

theorem setOption (h : σ.Closed P) (n : NodeId) (name : String) {d : Datum}
    (hd : ∀ i ∈ d.identities, P i) :
    ({ σ with store := σ.store.setOption n name d } : Session).Closed P := by
  refine h.of_store (.of_trail (.single (.optionSet n name d))) fun m hm i hi => ?_
  rcases List.mem_append.1 hi with hi | hi
  · exact .inl ⟨hm, List.mem_append_left _ hi⟩
  · change i ∈ ((σ.store.options.modify _ _)[(σ.store.get m).options]?.getD default).links at hi
    rw [Array.getElem?_modify] at hi
    split at hi
    · cases ho : σ.store.options[(σ.store.get m).options]? with
      | none =>
        rw [ho] at hi
        refine .inl ⟨hm, List.mem_append_right _ ?_⟩
        unfold Store.optionsOf
        rw [ho]
        exact hi
      | some o =>
        rw [ho] at hi
        refine (OptionSet.mem_links_of_set hi).imp (fun hi => ⟨hm, List.mem_append_right _ ?_⟩) (hd i)
        unfold Store.optionsOf
        rw [ho]
        exact hi
    · exact .inl ⟨hm, List.mem_append_right _ hi⟩

/-! ### Names, registries and iterations -/

/-- A session with the same rule sets and hosts. -/
theorem of_same (h : σ.Closed P) (he : σ.Earlier σ₁) (hs : σ₁.store = σ.store)
    (hh : σ₁.hosts = σ.hosts) (hr : σ₁.Rooted P)
    (ho : ∀ e ∈ σ₁.openEntries, e ∈ σ.openEntries ∨ P (.node e.sheet)) : σ₁.Closed P := by
  refine h.later he hr (fun i j hj => .inl ?_) ho
  have hlinks : σ₁.links = σ.links := by
    funext i
    cases i <;> simp only [Session.links, hs, hh]
  rwa [hlinks] at hj

theorem follows (h : σ.Closed P) (hf : σ.Follows σ₁) : σ₁.Closed P := by
  have he := Earlier.of_follows hf
  obtain ⟨_, _, _, _, rfl⟩ := hf.beside
  exact h.of_same he rfl rfl { h.rooted with } fun e he => .inl he

theorem drop (h : σ.Closed P) (handle : String) :
    ({ σ with handles := σ.handles.erase handle } : Session).Closed P :=
  h.of_same (.of_kept rfl rfl rfl rfl rfl rfl) rfl rfl
    { h.rooted with handles := fun n hn => h.rooted.handles n (mem_values_of_mem_erase hn) }
    fun _ he => .inl he

theorem dropHost (h : σ.Closed P) (name : String) :
    ({ σ with hostNames := σ.hostNames.erase name } : Session).Closed P :=
  h.of_same (.of_kept rfl rfl rfl rfl rfl rfl) rfl rfl
    { h.rooted with hostNames := fun n hn => h.rooted.hostNames n (mem_values_of_mem_erase hn) }
    fun _ he => .inl he

theorem makeHost (h : σ.Closed P) (name : String) {kind : HostKind Datum}
    (hk : ∀ key ∈ kind.key?, ∀ i ∈ key.identities, P i) : (σ.makeHost name kind).Closed P := by
  have he : σ.Earlier (σ.makeHost name kind) :=
    ⟨rfl, rfl, Nat.le_refl _, Nat.le_refl _, fun _ _ => rfl, ⟨#[_], Array.push_eq_append⟩,
      ⟨#[], Array.append_empty.symm⟩⟩
  refine h.later he { h.rooted with hostNames := fun id hid => ?_ } (fun i j hj => ?_) fun e he => .inl he
  · rcases mem_values_insert hid with rfl | hid
    · exact h.ahead _ (Nat.lt_irrefl _)
    · exact h.rooted.hostNames id hid
  · cases i with
    | host id =>
      simp only [Session.links, Session.makeHost] at hj
      rw [Array.getElem?_push] at hj
      split at hj
      · rename_i hid
        split at hid
        · cases hid
          exact .inr (hk _ rfl j hj)
        · exact .inl (by rw [Session.links, hid]; exact hj)
      · cases hj
    | _ => exact .inl hj

theorem makeRegistry (h : σ.Closed P) (name : String) : (σ.makeRegistry name).1.Closed P := by
  refine h.of_same (.of_kept rfl rfl rfl rfl rfl rfl) rfl rfl { h.rooted with } fun e he => .inl ?_
  obtain ⟨id, hid, he⟩ := List.mem_flatMap.1 he
  have hfiled : e ∈ σ.filedEntries id := σ.filedEntries_push id ▸ he
  refine List.mem_flatMap.2 ⟨id, ?_, hfiled⟩
  rcases List.mem_append.1 hid with hid | hid
  · rcases List.mem_cons.1 hid with rfl | hid
    · exact List.mem_append_left _ List.mem_cons_self
    · rcases mem_values_insert hid with rfl | hid
      -- the new registry is empty
      · unfold filedEntries at hfiled
        rw [Array.getElem?_eq_none (Nat.le_refl _)] at hfiled
        cases hfiled
      · exact List.mem_append_left _ (List.mem_cons_of_mem _ hid)
  · exact List.mem_append_right _ hid

theorem withRegistry (h : σ.Closed P) (name : String) : (σ.withRegistry name).1.Closed P := by
  unfold Session.withRegistry
  split
  · exact h
  · exact h.makeRegistry name

theorem setEntries (h : σ.Closed P) (id : RegistryId) {entries : Registry}
    (he : ∀ e ∈ entries, e ∈ σ.filedEntries id ∨ P (.node e.sheet)) :
    (σ.setEntries id entries).Closed P := by
  refine h.of_same (.of_kept rfl rfl rfl rfl rfl rfl) rfl rfl { h.rooted with } fun e hm => ?_
  obtain ⟨id', hid, hm⟩ := List.mem_flatMap.1 hm
  have hfiled : e ∈ (σ.setEntries id entries).filedEntries id' := hm
  rw [filedEntries_setEntries] at hfiled
  split at hfiled
  · rename_i hcond
    obtain ⟨rfl, -⟩ := hcond
    exact (he e hfiled).imp_left fun he => List.mem_flatMap.2 ⟨_, hid, he⟩
  · exact .inl (List.mem_flatMap.2 ⟨id', hid, hfiled⟩)

/-- A session stays closed if an iteration that holds only values with the property is entered. -/
theorem iterate (h : σ.Closed P) (name : String) {it : Iteration} (hi : ∀ i ∈ it.identities, P i) :
    ({ σ with iterations := σ.iterations.insert name it } : Session).Closed P :=
  h.of_same (.of_kept rfl rfl rfl rfl rfl rfl) rfl rfl
    { h.rooted with
      iterations := fun it' hit => by
        rcases mem_values_insert hit with rfl | hit
        · exact hi
        · exact h.rooted.iterations it' hit }
    fun _ he => .inl he

/-- Other calls in progress, which work on no further registries. -/
theorem of_calls (h : σ.Closed P) {calls : List Call} (hc : ∀ c ∈ calls, ∀ i ∈ c.links, P i)
    (hr : ∀ c ∈ calls, ∀ id ∈ c.purpose.registry?, id ∈ σ.openRegistries) :
    ({ σ with calls } : Session).Closed P := by
  refine h.of_same (.of_kept rfl rfl rfl rfl rfl rfl) rfl rfl { h.rooted with calls := hc }
    fun e he => .inl ?_
  obtain ⟨id, hid, he⟩ := List.mem_flatMap.1 he
  refine List.mem_flatMap.2 ⟨id, ?_, he⟩
  rcases List.mem_append.1 hid with hid | hid
  · exact List.mem_append_left _ hid
  · obtain ⟨c, hc, hid⟩ := List.mem_filterMap.1 hid
    exact hr c hc id hid

/-- A session stays closed if a result is kept that refers only to values with the property. -/
theorem keep (h : σ.Closed P) (tag : Tag) {r : Result} (hr : ∀ i ∈ r.datum.identities, P i) :
    (Machine.keep σ tag r).Closed P := by
  refine h.of_same (.of_kept rfl rfl rfl rfl rfl rfl) rfl rfl
    { h.rooted with handles := fun n hn => ?_, saved := fun d hd => ?_ } fun _ he => .inl he
  · unfold Machine.keep at hn
    simp only at hn
    split at hn
    · rcases mem_values_insert hn with rfl | hn
      · exact hr _ List.mem_cons_self
      · exact h.rooted.handles n hn
    · exact h.rooted.handles n hn
  · unfold Machine.keep at hd
    simp only at hd
    split at hd
    · rcases mem_values_insert hd with rfl | hd
      · exact hr
      · exact h.rooted.saved d hd
    · exact h.rooted.saved d hd

theorem keepResult (h : σ.Closed P) (tag : Tag) {r : Except Error Result}
    (hr : ∀ a, r = .ok a → ∀ i ∈ a.datum.identities, P i) :
    (Machine.keepResult σ tag r).Closed P := by
  cases r with
  | error e => exact h
  | ok a => exact h.keep tag (hr a rfl)

/-! ### What statements refer to -/

/-- What a statement acts on. -/
theorem target (h : σ.Closed P) (t : Target) : ∀ i ∈ (σ.target t).identities, P i := by
  intro i hi
  cases t with
  | handle name =>
    change i ∈ (((σ.handles.find? name).map Datum.node).getD .null).identities at hi
    cases hf : σ.handles.find? name with
    | none =>
      rw [hf] at hi
      cases hi
    | some n =>
      rw [hf] at hi
      cases List.mem_singleton.1 hi
      exact h.rooted.handles n (mem_values_of_find? hf)
  | enclosing depth =>
    change i ∈ (((σ.calls.filterMap fun c : Call => c.purpose.subject?)[depth]?).getD
      Datum.null).identities at hi
    cases hf : (σ.calls.filterMap fun c : Call => c.purpose.subject?)[depth]? with
    | none =>
      rw [hf] at hi
      cases hi
    | some d =>
      rw [hf] at hi
      obtain ⟨c, hc, hs⟩ := List.mem_filterMap.1 (List.mem_of_getElem? hf)
      exact (mem_links_or_permanent hs hi).elim
        (fun hi => h.rooted.calls c hc i (List.mem_append_right _ hi)) (h.rooted.permanent i)

/-- What goes by a name, or is made now. -/
theorem told (h : σ.Closed P) {is : List Identity} (ht : σ.Told σ₁ is) : ∀ i ∈ is, P i := by
  intro i hi
  rcases ht i hi with (⟨id, hid, rfl⟩ | ⟨d, hd, hi⟩ | ⟨name, rfl⟩) | hs
  · exact h.rooted.hostNames id hid
  · exact h.rooted.saved d hd i hi
  · exact h.alive _ (has_livingWith_iff.2 (.inl ⟨name, rfl⟩))
  · refine h.ahead i fun hm => ?_
    unfold Since at hs
    split at hs
    · exact Nat.not_lt.2 hs.1 hm
    · exact Nat.not_lt.2 hs.1 hm
    · exact hs

/-- What is worked out refers to such things only. -/
theorem tells {α : Type} {c : Eval α} {is : α → List Identity} (h : σ.Closed P)
    (hc : Eval.Tells σ σ c is) {a : α} (ha : c σ = .ok (a, σ₁)) :
    σ₁.Closed P ∧ ∀ i ∈ is a, P i := by
  obtain ⟨hf, ht⟩ := hc a σ₁ ha
  exact ⟨h.follows hf, h.told ht⟩

end Closed

end Session

end RuleTree
