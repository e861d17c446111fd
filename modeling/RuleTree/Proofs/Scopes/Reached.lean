import RuleTree.Proofs.Scopes.Sessions

/-!
# What sessions of two runs reach

* `Session.Tallies.equal`, `Session.Tallies.bodyOf` and the like: what is asked of values and
  objects by statements has the same answer;
* `Linked.rel`: what is linked along related links;
* `Session.Tallies.alive`: what stands for each other is alive in both sessions or in neither;
* `Session.Tallies.chain`, `Session.Tallies.hostOf`, `Session.Tallies.sees`: so weak links lead to
  the same, and the same custom properties are visible;
* `Session.Tallies.appearance`, `Session.Tallies.record`: while no tree writes its custom properties
  the same is shown, and in any case what is recorded can be shown in both or in neither.
-/

namespace RuleTree

variable {μ : Matching}

/-- What is linked is related to something that is linked along related links. -/
theorem Linked.rel {α β : Type} {r : α → β → Prop} {links : α → List α} {links' : β → List β}
    {start : List α} {start' : List β} (hs : List.Forall₂ r start start')
    (hl : ∀ x y, r x y → List.Forall₂ r (links x) (links' y)) {x : α} (h : Linked links start x) :
    ∃ y, r x y ∧ Linked links' start' y := by
  have related {l : List α} {l' : List β} (h : List.Forall₂ r l l') {x : α} (hx : x ∈ l) :
      ∃ y ∈ l', r x y := by
    induction h with
    | nil => cases hx
    | cons h _ ih =>
      rcases List.mem_cons.1 hx with rfl | hx
      · exact ⟨_, List.mem_cons_self, h⟩
      · obtain ⟨y, hy, hr⟩ := ih hx
        exact ⟨y, List.mem_cons_of_mem _ hy, hr⟩
  induction h with
  | start hx =>
    obtain ⟨y, hy, hr⟩ := related hs hx
    exact ⟨y, hr, .start hy⟩
  | link _ hy ih =>
    obtain ⟨x', hr, hx'⟩ := ih
    obtain ⟨y', hy', hr'⟩ := related (hl _ _ hr) hy
    exact ⟨y', hr', .link hx' hy'⟩

namespace Session.Tallies

variable {σ σ' : Session} {i i' j j' : Identity} {d d' : Datum}

/-! ### Objects -/

theorem hostName (h : σ.Tallies μ σ') : σ.hostName = σ'.hostName := by
  funext id
  unfold Session.hostName
  rw [(h.hosts.getElem? id).map_eq fun _ _ hh => hh.name]

theorem hostKind (h : σ.Tallies μ σ') (id : HostId) :
    HostKind.Rel (Datum.Tallies μ) (σ.hostKind id) (σ'.hostKind id) :=
  ((h.hosts.getElem? id).map fun _ _ hh => hh.kind).getD .plain

theorem hasHash (h : σ.Tallies μ σ') (hi : i.Tallies μ i') : σ.hasHash i = σ'.hasHash i' := by
  cases hi with
  | host id =>
    unfold Session.hasHash
    simp only
    rw [(h.hosts.getElem? id).map_eq fun _ _ hh => hh.hasHash]
  | _ => rfl

theorem standing (h : σ.Tallies μ σ') (hi : i.Tallies μ i') :
    Option.Rel (Identity.Tallies μ) (σ.standing i) (σ'.standing i') := by
  cases hi with
  | host id =>
    unfold Session.standing
    simp only
    rw [(h.hosts.getElem? id).map_eq fun _ _ hh => hh.like]
    generalize ((σ'.hosts[id]?.map Host.like).getD (some id)) = like
    cases like with
    | none => exact .none
    | some id => exact .some (.host id)
  | generator hg => exact .some (.generator hg)
  | node n => exact .some (.node n)
  | made hs => exact .some (.made hs)

theorem equal (h : σ.Tallies μ σ') (hi : i.Tallies μ i') (hj : j.Tallies μ j') :
    σ.equal i j = σ'.equal i' j' := by
  unfold Session.equal
  have hs := h.standing hi
  have ht := h.standing hj
  revert hs ht
  generalize σ.standing i = a, σ'.standing i' = a', σ.standing j = b, σ'.standing j' = b'
  rintro (hs | _) (ht | _)
  · rw [Bool.eq_iff_iff]
    simpa using ht.eq_iff h.counts.oneToOne hs
  · rfl
  · rfl
  · rfl

theorem bodyOf (h : σ.Tallies μ σ') {g g' : Generator} (hg : g.Tallies μ g') :
    Body.Varies (σ.bodyOf g) (σ'.bodyOf g') := by
  cases hg with
  | named name => exact (h.generators.find? name).getD .nil
  | inline hi =>
    obtain ⟨b, b', hb, hb', hv⟩ := h.counts.bodies hi
    unfold Session.bodyOf
    simp only [hb, hb']
    exact hv

theorem callable (h : σ.Tallies μ σ') (hd : d.Tallies μ d') : σ.callable d = σ'.callable d' := by
  cases hd with
  | host id =>
    show (σ.hostKind id).isCallable = (σ'.hostKind id).isCallable
    have hk := h.hostKind id
    revert hk
    generalize σ.hostKind id = k, σ'.hostKind id = k'
    intro hk
    cases hk <;> rfl
  | _ => rfl

theorem kindName? (h : σ.Tallies μ σ') (hd : d.Tallies μ d') :
    σ.kindName? d = σ'.kindName? d' := by
  cases hd with
  | host id =>
    unfold Session.kindName?
    simp only
    rw [h.hostName]
    have hk := h.hostKind id
    revert hk
    generalize σ.hostKind id = k, σ'.hostKind id = k'
    intro hk
    cases hk <;> rfl
  | _ => rfl

/-! ### What statements act on -/

theorem target (h : σ.Tallies μ σ') (t : Target) : (σ.target t).Tallies μ (σ'.target t) := by
  cases t with
  | handle name =>
    unfold Session.target
    rw [h.handles]
    exact ((Option.Rel.refl (fun _ => rfl) _).map fun _ _ h => h ▸ .node _).getD .null
  | enclosing depth =>
    have enclosing : List.Forall₂ (Datum.Tallies μ) σ.enclosing σ'.enclosing :=
      List.rel_filterMap (fun _ _ hc => hc.purpose.subject? h.counts.sample) h.calls
    have hd : Option.Rel (Datum.Tallies μ) σ.enclosing[depth]? σ'.enclosing[depth]? := by
      rw [← List.getElem?_toArray, ← List.getElem?_toArray]
      exact Rows.getElem? ⟨enclosing⟩ depth
    exact hd.getD .null

/-! ### What is alive -/

theorem roots (h : σ.Tallies μ σ') : List.Forall₂ (Identity.Tallies μ) σ.roots σ'.roots := by
  have calls : List.Forall₂ (Identity.Tallies μ) (σ.calls.flatMap Call.links)
      (σ'.calls.flatMap Call.links) :=
    List.rel_flatMap h.calls fun _ _ hc => List.rel_append hc.held hc.purpose.links
  unfold Session.roots
  rw [h.handles, h.hostNames]
  refine List.rel_append (List.rel_append (List.rel_append (List.rel_append (List.rel_append
    ?_ (Identity.Tallies.nodes _)) ?_) ?_) calls) ?_
  · exact .cons (.made h.counts.naming) (.cons (.made h.counts.sample) .nil)
  · exact List.rel_flatMap h.saved.values fun _ _ hd => hd.identities
  · exact forall₂_map .host _
  · exact List.rel_flatMap h.iterations.values fun _ _ hi => hi.identities

theorem links (h : σ.Tallies μ σ') (hi : i.Tallies μ i') :
    List.Forall₂ (Identity.Tallies μ) (σ.links i) (σ'.links i') := by
  cases hi with
  | node n =>
    unfold Session.links
    rw [h.store.next]
    simp only
    split
    · exact h.store.links h.counts.naming n
    · exact .nil
  | host id =>
    unfold Session.links
    simp only
    have hh := h.hosts.getElem? id
    revert hh
    generalize σ.hosts[id]? = a, σ'.hosts[id]? = b
    rintro (hh | _)
    · rename_i a b
      obtain ⟨_, k, _, _⟩ := a
      obtain ⟨_, k', _, _⟩ := b
      cases hh.kind with
      | equal hk => exact hk.identities
      | _ => exact .nil
    · exact .nil
  | _ => exact .nil

/-- What stands for each other is linked in both or in neither. -/
theorem linked_iff (h : σ.Tallies μ σ') {es es' : List Entry}
    (he : List.Forall₂ (Entry.Tallies μ) es es') (hi : i.Tallies μ i') :
    Linked σ.links (σ.roots ++ es.map fun e => .node e.sheet) i ↔
      Linked σ'.links (σ'.roots ++ es'.map fun e => .node e.sheet) i' := by
  have start : List.Forall₂ (Identity.Tallies μ) (σ.roots ++ es.map fun e => .node e.sheet)
      (σ'.roots ++ es'.map fun e => .node e.sheet) :=
    List.rel_append h.roots (List.rel_map (fun e e' he => he.sheet ▸ .node _) he)
  constructor
  -- what is reached in the other session stands for `i`, and only `i'` does
  · intro hl
    obtain ⟨j, hj, hl⟩ := hl.rel start fun _ _ => h.links
    rwa [← (hi.eq_iff h.counts.oneToOne hj).1 rfl] at hl
  · intro hl
    obtain ⟨j, hj, hl⟩ := hl.rel (r := flip (Identity.Tallies μ)) start.flip
      fun _ _ hr => (h.links hr).flip
    rwa [← (hi.eq_iff h.counts.oneToOne hj).2 rfl] at hl

theorem has_livingWith (h : σ.Tallies μ σ') {es es' : List Entry}
    (he : List.Forall₂ (Entry.Tallies μ) es es') (hi : i.Tallies μ i') :
    (σ.livingWith es).has i = (σ'.livingWith es').has i' := by
  rw [Bool.eq_iff_iff, has_livingWith_iff, has_livingWith_iff, h.linked_iff he hi]
  refine or_congr_left ⟨?_, ?_⟩
  · rintro ⟨name, rfl⟩
    cases hi with
    | generator hg =>
      cases hg
      exact ⟨name, rfl⟩
  · rintro ⟨name, rfl⟩
    cases hi with
    | generator hg =>
      cases hg
      exact ⟨name, rfl⟩

theorem openEntries (h : σ.Tallies μ σ') :
    List.Forall₂ (Entry.Tallies μ) σ.openEntries σ'.openEntries := by
  have open_eq : σ.openRegistries = σ'.openRegistries := by
    unfold Session.openRegistries
    rw [h.registryNames]
    refine congrArg _ (eq_of_forall₂ (List.rel_filterMap (fun _ _ hc => ?_) h.calls))
    rw [hc.purpose.registry?]
    exact Option.Rel.refl (fun _ => rfl) _
  unfold Session.openEntries
  rw [open_eq]
  refine List.rel_flatMap (forall₂_refl (r := Eq) (fun _ => rfl) _) ?_
  rintro id _ rfl
  exact (h.registries.getElem? id).getD .nil

theorem supported (h : σ.Tallies μ σ') {es es' : List Entry}
    (he : List.Forall₂ (Entry.Tallies μ) es es') :
    List.Forall₂ (Entry.Tallies μ) (σ.supported es) (σ'.supported es') := by
  unfold Session.supported
  refine List.rel_filter (fun e e' hr => ?_) he
  simp only [h.has_livingWith he hr.host]

theorem lasting (h : σ.Tallies μ σ') {es es' : List Entry}
    (he : List.Forall₂ (Entry.Tallies μ) es es') :
    List.Forall₂ (Entry.Tallies μ) (σ.lasting es) (σ'.lasting es') := by
  -- both lists shrink in step, for what supports an entry supports the one that it stands for
  induction es using Session.lasting.induct (σ := σ) generalizing es' with
  | case1 es hlt ih =>
    have hs := h.supported he
    have hlt' : (σ'.supported es').length < es'.length := by
      rwa [← hs.length_eq, ← he.length_eq]
    unfold Session.lasting
    rw [dif_pos hlt, dif_pos hlt']
    exact ih hs
  | case2 es hge =>
    have hge' : ¬ (σ'.supported es').length < es'.length := by
      rwa [← (h.supported he).length_eq, ← he.length_eq]
    unfold Session.lasting
    rw [dif_neg hge, dif_neg hge']
    exact he

/-- What stands for each other is alive in both sessions or in neither. -/
theorem alive (h : σ.Tallies μ σ') (hi : i.Tallies μ i') : σ.alive i = σ'.alive i' :=
  h.has_livingWith (h.lasting h.openEntries) hi

theorem entries (h : σ.Tallies μ σ') (id : RegistryId) :
    List.Forall₂ (Entry.Tallies μ) (σ.entries id) (σ'.entries id) := by
  refine List.rel_filter (fun e e' hr => ?_) ((h.registries.getElem? id).getD .nil)
  simp only [show σ.living.has e.host = σ'.living.has e'.host from h.alive hr.host]

/-! ### Weak links -/

theorem chain (h : σ.Tallies μ σ') (n : NodeId) : σ.chain n = σ'.chain n :=
  h.store.chain (funext fun m => h.alive (.node m)) n

theorem parent? (h : σ.Tallies μ σ') (n : NodeId) : σ.parent? n = σ'.parent? n := by
  unfold Session.parent?
  rw [(h.store.get n).parent]
  exact congrArg (Option.filter · _) (funext fun p => h.alive (.node p))

theorem followHost (h : σ.Tallies μ σ') (hd : d.Tallies μ d') :
    (σ.followHost d).Tallies μ (σ'.followHost d') := by
  unfold Session.followHost
  have hi := hd.identity?
  revert hi
  generalize d.identity? = i, d'.identity? = i'
  rintro (hi | _)
  · simp only [h.alive hi]
    split
    · exact hd
    · exact .null
  · exact hd

theorem hostOf (h : σ.Tallies μ σ') (n : NodeId) : (σ.hostOf n).Tallies μ (σ'.hostOf n) := by
  have found (ns : List NodeId) : Option.Rel (Datum.Tallies μ)
      (ns.findSome? fun m => (σ.store.get m).host)
      (ns.findSome? fun m => (σ'.store.get m).host) := by
    induction ns with
    | nil => exact .none
    | cons m ns ih =>
      rw [List.findSome?_cons, List.findSome?_cons]
      have hm := (h.store.get m).host
      revert hm
      generalize (σ.store.get m).host = a, (σ'.store.get m).host = b
      rintro (hm | _)
      · exact .some hm
      · exact ih
  unfold Session.hostOf
  rw [h.chain n]
  exact ((found _).map fun _ _ => h.followHost).getD .null

/-- The same custom properties are visible in both runs, whatever their values. -/
theorem sees (h : σ.Tallies μ σ') (n : NodeId) (name : String) :
    σ.sees n name = σ'.sees n name := by
  unfold Session.sees
  rw [h.chain n]
  congr 1
  funext m
  rw [Bool.eq_iff_iff, Table.contains_iff, Table.contains_iff, (h.store.get m).names]

theorem reference (h : σ.Tallies μ σ') (n : NodeId) (name : String) :
    σ.reference n name = σ'.reference n name := by
  unfold Session.reference
  rw [h.sees n name]

/-! ### Looks -/

theorem appearance (h : σ.Tallies μ σ') (hs : σ.store.silent = true) :
    σ.appearance.Tallies σ'.appearance :=
  ⟨h.hostName, funext fun n => h.store.blocks hs _ _ n⟩

theorem views (h : σ.Tallies μ σ') : σ.views.host = σ'.views.host ∧ σ.views.node = σ'.views.node :=
  ⟨h.hostName, funext fun n => h.store.picture h.hostName n⟩

theorem told (h : σ.Tallies μ σ') (hd : d.Tallies μ d') : d.told σ.views = d'.told σ'.views :=
  hd.told h.views.1 h.views.2 rfl

theorem picture (h : σ.Tallies μ σ') (hd : d.Tallies μ d') :
    d.picture σ.views = d'.picture σ'.views := hd.picture h.views.1 h.views.2 rfl

/-- What is recorded may differ by the labels of rule sets, but is shown in both or in neither. -/
theorem record (h : σ.Tallies μ σ') (event : LogEvent) (hd : d.Tallies μ d') :
    Both (Session.Tallies μ) (σ.record event d) (σ'.record event d') := by
  have agree : Agree (d.label σ.appearance) (d'.label σ'.appearance) :=
    Datum.label_agree_of_bare hd.bare fun n _ => h.store.label_agree _ _ n
  rcases record_agree h.log agree event event with ⟨e, -, he, he'⟩ | ⟨log, log', hl, hl', hs, hs'⟩
  · rw [he, he']
    exact .error e
  · rw [hl, hl']
    exact .ok { h with log := hs.trans (h.log.trans hs'.symm) }

end Session.Tallies

end RuleTree
