import RuleTree.Proofs.Lifetime.Runs
import RuleTree.Proofs.Options.Shared

/-!
# Parents

* `Session.HeldWith`, `Session.Held`: the ways in which objects are held, among them style sheets
  that are kept for hosts which are held themselves;
* `Session.alive_iff_held`: what is alive is what is held;
* `Session.CutOff`: a rule set from which nothing leads further up;
* `Machine.MadeUnder`: having been constructed under a parent;
* `Machine.KeepsParent`, `Machine.keepsParent`: the parent of a rule set is the one that it was
  constructed under as long as that one is held, and once it is not, the rule set is cut off for
  ever;
* `Machine.parent_of_listed_host`: values count as well: a rule set in a list that is the host of
  another one is held by that one.
-/

namespace RuleTree

namespace Session

variable {σ σ₁ : Session} {i : Identity} {kept : List Entry} {n p : NodeId}

/-! ### Holding -/

/-- Being held, if some entries of registries hold their style sheets. -/
inductive HeldWith (σ : Session) (kept : List Entry) : Identity → Prop
  /-- the naming rule of trees that set none, and the sample kind -/
  | permanent {i : Identity} (h : i ∈ OptionSet.permanent) : HeldWith σ kept i
  | generator (name : String) : HeldWith σ kept (.generator (.named name))
  | handle {n : NodeId} (h : n ∈ σ.handles.values) : HeldWith σ kept (.node n)
  | saved {d : Datum} {i : Identity} (h : d ∈ σ.saved.values) (hi : i ∈ d.identities) :
    HeldWith σ kept i
  | hostName {id : HostId} (h : id ∈ σ.hostNames.values) : HeldWith σ kept (.host id)
  /-- what an operation that is still running acts on, and what it was passed -/
  | call {c : Call} {i : Identity} (h : c ∈ σ.calls) (hi : i ∈ c.links) : HeldWith σ kept i
  /-- what an iteration that has not ended goes through -/
  | iteration {it : Iteration} {i : Identity} (h : it ∈ σ.iterations.values)
    (hi : i ∈ it.identities) : HeldWith σ kept i
  | sheet {e : Entry} (h : e ∈ kept) : HeldWith σ kept (.node e.sheet)
  | child {p c : NodeId} (hp : HeldWith σ kept (.node p)) (hc : c ∈ (σ.store.get p).children) :
    HeldWith σ kept (.node c)
  /-- what the selector of a rule set refers to that is held, or its host if that is a plain value -/
  | part {p : NodeId} {i : Identity} (hp : HeldWith σ kept (.node p))
    (hi : i ∈ (σ.store.get p).selector.identities ++
      (σ.store.get p).host.toList.flatMap RuleSet.hostLinks) : HeldWith σ kept i
  /-- what the options of its tree refer to -/
  | option {p : NodeId} {i : Identity} (hp : HeldWith σ kept (.node p)) (hn : p < σ.store.next)
    (hi : i ∈ (σ.store.optionsOf p).links) : HeldWith σ kept i
  /-- what the key of a host refers to -/
  | key {id : HostId} {key : Datum} {i : Identity} (h : HeldWith σ kept (.host id))
    (hk : σ.hostKind id = .equal key) (hi : i ∈ key.identities) : HeldWith σ kept i

/-- Being held. An entry of a registry in use holds its style sheet as long as its host is held,
maybe by that very sheet. -/
def Held (σ : Session) (i : Identity) : Prop :=
  ∃ kept ⊆ σ.openEntries, (∀ e ∈ kept, σ.HeldWith kept e.host) ∧ σ.HeldWith kept i

/-- What an object links to is held with the object. -/
theorem HeldWith.link {j : Identity} (h : σ.HeldWith kept i) (hj : j ∈ σ.links i) :
    σ.HeldWith kept j := by
  cases i with
  | node n =>
    change j ∈ (if n < σ.store.next then σ.store.links n else []) at hj
    split at hj
    · rename_i hn
      rcases List.mem_append.1 hj with hj | hj
      · unfold RuleSet.links at hj
        rw [List.append_assoc] at hj
        rcases List.mem_append.1 hj with hj | hj
        · obtain ⟨c, hc, rfl⟩ := List.mem_map.1 hj
          exact .child h hc
        · exact .part h hj
      · exact .option h hn hj
    · cases hj
  | host id =>
    obtain ⟨key, hk, hj⟩ := mem_links_host.1 hj
    exact .key h hk hj
  | _ => cases hj

/-- Holding is being linked from what lives by itself. -/
theorem heldWith_iff : σ.HeldWith kept i ↔ (σ.livingWith kept).has i = true := by
  have root {j : Identity} (hj : j ∈ σ.roots) : (σ.livingWith kept).has j = true :=
    has_livingWith_iff.2 (.inr (.start (List.mem_append_left _ hj)))
  have hrooted : σ.Rooted fun j => (σ.livingWith kept).has j = true := rooted_iff.2 fun _ => root
  have link {i j : Identity} (h : (σ.livingWith kept).has i = true) (hj : j ∈ σ.links i) :
      (σ.livingWith kept).has j = true := by
    rcases has_livingWith_iff.1 h with ⟨name, rfl⟩ | hl
    · cases hj
    · exact has_livingWith_iff.2 (.inr (.link hl hj))
  have below {p : NodeId} {i : Identity} (h : (σ.livingWith kept).has (.node p) = true)
      (hi : i ∈ (σ.store.get p).links) : (σ.livingWith kept).has i = true := by
    by_cases hp : p < σ.store.next
    · exact link h ((mem_links_node hp).2 (List.mem_append_left _ hi))
    · rw [Store.get_of_next_le (Nat.not_lt.1 hp)] at hi
      cases hi
  constructor
  · intro h
    induction h with
    | permanent h => exact hrooted.permanent _ h
    | generator name => exact has_livingWith_iff.2 (.inl ⟨name, rfl⟩)
    | handle h => exact hrooted.handles _ h
    | saved h hi => exact hrooted.saved _ h _ hi
    | hostName h => exact hrooted.hostNames _ h
    | call h hi => exact hrooted.calls _ h _ hi
    | iteration h hi => exact hrooted.iterations _ h _ hi
    | sheet h =>
      exact has_livingWith_iff.2 (.inr (.start (List.mem_append_right _
        (List.mem_map_of_mem (f := fun e : Entry => Identity.node e.sheet) h))))
    | child _ hc ih =>
      exact below ih (List.mem_append_left _ (List.mem_append_left _ (List.mem_map_of_mem hc)))
    | part _ hi ih =>
      refine below ih ?_
      unfold RuleSet.links
      rw [List.append_assoc]
      exact List.mem_append_right _ hi
    | option _ hn hi ih => exact link ih ((mem_links_node hn).2 (List.mem_append_right _ hi))
    | key _ hk hi ih => exact link ih (mem_links_host.2 ⟨_, hk, hi⟩)
  · intro h
    rcases has_livingWith_iff.1 h with ⟨name, rfl⟩ | hl
    · exact .generator name
    · induction hl with
      | start hs =>
        rcases List.mem_append.1 hs with hs | hs
        · have held : σ.Rooted (σ.HeldWith kept) :=
            ⟨fun _ => .permanent, fun _ => .handle, fun _ hd _ => .saved hd, fun _ => .hostName,
              fun _ hc _ => .call hc, fun _ ht _ => .iteration ht⟩
          exact rooted_iff.1 held _ hs
        · obtain ⟨e, he, rfl⟩ := List.mem_map.1 hs
          exact .sheet he
      | link hx hy ih => exact (ih (has_livingWith_iff.2 (.inr hx))).link hy

/-- What is alive is what is held. -/
theorem alive_iff_held : σ.alive i = true ↔ σ.Held i := by
  constructor
  · intro h
    exact ⟨σ.lasting σ.openEntries, σ.lasting_subset _,
      fun e he => heldWith_iff.2 (has_host_of_mem_lasting he), heldWith_iff.2 h⟩
  · rintro ⟨kept, hsub, hhosts, hi⟩
    exact has_livingWith_mono (subset_lasting hsub fun e he => heldWith_iff.1 (hhosts e he))
      (heldWith_iff.1 hi)

/-! ### Rule sets without a way up -/

/-- Nothing leads further up from a rule set: it has no parent, is all of its chain, sees what it
defines itself and no more, and has no host but its own. -/
structure CutOff (σ : Session) (n : NodeId) : Prop where
  parent : σ.parent? n = none
  chain : σ.chain n = [n]
  sees : ∀ name, σ.sees n name = (σ.store.get n).scope.contains name
  host : σ.hostOf n = ((σ.store.get n).host.map σ.followHost).getD .null

theorem cutOff_of_parent (h : σ.parent? n = none) : σ.CutOff n := by
  have hchain : σ.chain n = [n] := by
    rw [chain_eq_cons, h]
    rfl
  refine ⟨h, hchain, fun name => ?_, ?_⟩
  · rw [sees_eq, seesAbove_of_root h]
    exact Bool.or_false _
  · unfold hostOf
    rw [hchain, List.findSome?_cons]
    cases (σ.store.get n).host <;> rfl

/-- The parent is the one that a rule set was made under, if that one is held. -/
theorem parent?_eq_some_iff (hp : (σ.store.get n).parent = some p) {q : NodeId} :
    σ.parent? n = some q ↔ q = p ∧ σ.Held (.node p) := by
  unfold parent?
  rw [hp, Option.filter_some, ← alive_iff_held]
  split
  · rename_i ha
    rw [Option.some_inj]
    exact ⟨fun h => ⟨h.symm, ha⟩, fun h => h.1.symm⟩
  · rename_i ha
    exact ⟨nofun, fun h => absurd h.2 ha⟩

/-- What a statement acts on lives by itself. -/
theorem mem_roots_of_target {t : Target} (h : σ.target t = .node n)
    (hh : σ₁.handles = σ.handles) (hc : σ.calls ⊆ σ₁.calls) : .node n ∈ σ₁.roots := by
  have hrooted : σ₁.Rooted (· ∈ σ₁.roots) := rooted_iff.2 fun _ hi => hi
  cases t with
  | handle name =>
    simp only [target] at h
    cases hf : σ.handles.find? name with
    | none =>
      rw [hf] at h
      cases h
    | some m =>
      rw [hf] at h
      cases h
      exact hrooted.handles _ (hh ▸ mem_values_of_find? hf)
  | enclosing depth =>
    change ((σ.calls.filterMap fun c : Call => c.purpose.subject?)[depth]?).getD Datum.null = _ at h
    cases hf : (σ.calls.filterMap fun c : Call => c.purpose.subject?)[depth]? with
    | none =>
      rw [hf] at h
      cases h
    | some d =>
      rw [hf] at h
      cases h
      obtain ⟨c, hcm, hs⟩ := List.mem_filterMap.1 (List.mem_of_getElem? hf)
      exact hrooted.calls c (hc hcm) _ (List.mem_append_right _ (mem_links_of_subject hs))

end Session

/-! ### Parents over time -/

/-- Whether an event puts a new rule set under a parent. -/
def Event.puts (n p : NodeId) : Event → Bool
  | sprouted n' p' _ _ _ => n' == n && p' == p
  | _ => false

namespace Machine

/-- Having been constructed under a parent, by a selection or by itself. -/
def MadeUnder (s : Script) (k : Nat) (n p : NodeId) : Prop :=
  ∃ selector host fragment, .sprouted n p selector host fragment ∈ history k (load s)

theorem madeUnder_iff {s : Script} {k : Nat} {n p : NodeId} :
    MadeUnder s k n p ↔ (history k (load s)).any (·.puts n p) = true := by
  rw [List.any_eq_true]
  constructor
  · rintro ⟨selector, host, fragment, he⟩
    exact ⟨_, he, by simp [Event.puts]⟩
  · rintro ⟨e, he, hputs⟩
    cases e with
    | sprouted n' p' selector host fragment =>
      simp only [Event.puts, Bool.and_eq_true, beq_iff_eq] at hputs
      obtain ⟨rfl, rfl⟩ := hputs
      exact ⟨selector, host, fragment, he⟩
    | _ => cases hputs

theorem MadeUnder.parent {s : Script} {k : Nat} {n p : NodeId} (h : MadeUnder s k n p) :
    n < (run k (load s)).session.store.next ∧
      ((run k (load s)).session.store.get n).parent = some p := by
  obtain ⟨selector, host, fragment, he⟩ := h
  have hs := shares s k
  refine ⟨hs.recorded.lt_next he rfl, ?_⟩
  rw [(hs.recorded.holds _ he).2.1, Option.filter_some, if_pos (decide_eq_true (hs.older he))]

/-- What is true after so many steps of a rule set and the one that it was constructed under. -/
structure KeepsParent (s : Script) (k : Nat) (n p : NodeId) : Prop where
  /-- the one that it was constructed under is its parent as long as that one is held, and no other
  rule set ever is -/
  reads : ∀ q, (run k (load s)).session.parent? n = some q ↔
    q = p ∧ (run k (load s)).session.Held (.node p)
  /-- once it has no parent it is cut off for ever -/
  lost : (run k (load s)).EmptyHanded → (run k (load s)).session.parent? n = none →
    ∀ j, (run j (run k (load s))).session.CutOff n
  /-- a reset of the parent leaves it in place, whether or not the parent still lists the rule set -/
  reset : ∀ σ tag t generator, (run k (load s)).task = .begin σ tag (.reset t generator) →
    σ.target t = .node p → (run k (load s)).step.session.parent? n = some p

/-- What was there stays there, made as it was. -/
theorem madeAs_of_run (s : Script) (k j : Nat) {n : NodeId}
    (hn : n < (run k (load s)).session.store.next) :
    ((run k (load s)).session.store.get n).MadeAs
      ((run j (run k (load s))).session.store.get n) :=
  (trail_history j (run k (load s))).madeAs hn

/-- What a reset acts on is alive when it has begun. -/
theorem alive_of_reset {m : Machine} {σ : Session} {tag : Tag} {t : Target} {generator : Datum}
    {p : NodeId} (ht : m.task = .begin σ tag (.reset t generator)) (hp : σ.target t = .node p) :
    m.step.session.alive (.node p) = true := by
  obtain ⟨m₀, s, settled, proceeds, he, hstep⟩ := proceeds_of_task ht
  have ha : (σ.begin (.reset t generator)).Amends σ [firstRegistry] := σ.amends_begin rfl
  replace ha := ha.session
  rw [hstep]
  cases hb : σ.begin (.reset t generator) with
  | done σ₁ r =>
    rw [hb] at ha
    obtain ⟨_, _, _, _, -, hσ⟩ := ha
    rw [perform_done hb]
    change σ₁ = _ at hσ
    refine Session.alive_of_mem_roots (Session.mem_roots_of_target hp (by rw [hσ]) ?_)
    rw [hσ]
    exact List.Subset.refl _
  | enter σ₁ purpose body =>
    rw [hb] at ha
    obtain ⟨_, _, _, _, -, hσ⟩ := ha
    rw [perform_enter hb]
    change σ₁ = _ at hσ
    refine Session.alive_of_mem_roots (Session.mem_roots_of_target hp (by rw [hσ]) ?_)
    exact List.subset_cons_self _ _

/-- In every state of a script, a rule set keeps the parent that it was constructed under as long as
that one is held, and then loses it for good. -/
theorem keepsParent (s : Script) (k : Nat) (n p : NodeId) (h : MadeUnder s k n p) :
    KeepsParent s k n p := by
  obtain ⟨hn, hp⟩ := h.parent
  have hlt : p < (run k (load s)).session.store.next := Nat.lt_trans (Forest.lt_of_parent hp) hn
  refine ⟨fun q => Session.parent?_eq_some_iff hp, fun hempty hnone j => ?_, fun σ tag t g ht hσ => ?_⟩
  · have hdead : (run k (load s)).session.alive (.node p) = false := by
      refine Bool.eq_false_iff.2 fun ha => ?_
      rw [(Session.parent?_eq_some_iff hp).2 ⟨rfl, Session.alive_iff_held.1 ha⟩] at hnone
      cases hnone
    refine Session.cutOff_of_parent ?_
    unfold Session.parent?
    rw [(madeAs_of_run s k j hn).parent, hp, Option.filter_some,
      if_neg (Bool.eq_false_iff.1 (not_alive_run s k hempty (i := .node p) hlt hdead j))]
  · have hstep : (run k (load s)).step = run 1 (run k (load s)) := (run_succ 0 _).symm
    have ha := alive_of_reset ht hσ
    refine (Session.parent?_eq_some_iff ?_).2 ⟨rfl, Session.alive_iff_held.1 ha⟩
    rw [hstep, (madeAs_of_run s k 1 hn).parent, hp]

end Machine

/-- Being held by a handle or a saved result, by the list of a rule set that is held, by the entry of
a host that is alive, by an iteration, or by an operation that is still running. -/
inductive Session.HeldDirectly (σ : Session) : NodeId → Prop
  | handle {n : NodeId} (h : n ∈ σ.handles.values) : HeldDirectly σ n
  | saved {d : Datum} {n : NodeId} (h : d ∈ σ.saved.values) (hn : .node n ∈ d.identities) :
    HeldDirectly σ n
  | child {p c : NodeId} (hp : HeldDirectly σ p) (hc : c ∈ (σ.store.get p).children) :
    HeldDirectly σ c
  | sheet {e : Entry} (h : e ∈ σ.openEntries) (ha : σ.alive e.host = true) :
    HeldDirectly σ e.sheet
  | iteration {it : Iteration} {n : NodeId} (h : it ∈ σ.iterations.values)
    (hn : .node n ∈ it.identities) : HeldDirectly σ n
  | call {c : Call} {n : NodeId} (h : c ∈ σ.calls) (hn : .node n ∈ c.links) : HeldDirectly σ n

/-- A script with three rule sets. The second one is constructed under the first one, which in the
end nothing holds but a list that is the host of the third one. -/
def Script.hosting : Script where
  steps := [
    .mk (.build (.text "first") (.inline []) none []) (some "first") (some "value"),
    .mk (.construct (.text "second") (.inline []) none [] (some "first")) (some "second") none,
    .mk (.build (.text "third") (.inline []) (some (.list [.saved "value"])) []) (some "third") none,
    .mk (.drop "first") none none,
    .mk (.same "second" "second") none (some "value")]
  generators := .empty
  logs := false

namespace Machine

theorem madeUnder_hosting : MadeUnder .hosting 13 1 0 :=
  madeUnder_iff.2 (by decide +kernel)

/-- The first rule set is held by the list. -/
theorem alive_hosting : (run 13 (load .hosting)).session.alive (.node 0) = true := by
  have hthird : (run 13 (load .hosting)).session.alive (.node 2) = true :=
    Session.alive_of_mem_roots (by decide +kernel)
  exact Session.alive_of_mem_links hthird (by decide +kernel)

/-- The parent is read although it is held in none of those ways. -/
theorem parent_of_listed_host : MadeUnder .hosting 13 1 0 ∧
    (run 13 (load .hosting)).settled = none ∧
    (run 13 (load .hosting)).session.parent? 1 = some 0 ∧
    ¬ (run 13 (load .hosting)).session.HeldDirectly 0 := by
  have hmade := madeUnder_hosting
  refine ⟨hmade, ?_, ?_, fun h => ?_⟩
  · have hs : (run 13 (load .hosting)).settled.isNone = true := by decide +kernel
    exact Option.isNone_iff_eq_none.1 hs
  · exact (Session.parent?_eq_some_iff hmade.parent.2).2 ⟨rfl, Session.alive_iff_held.1 alive_hosting⟩
  · generalize hz : (0 : NodeId) = z at h
    induction h with
    | handle h =>
      subst hz
      exact absurd h (by decide +kernel)
    | saved h hn =>
      subst hz
      have hnone : ∀ d ∈ (run 13 (load .hosting)).session.saved.values,
          Identity.node 0 ∉ d.identities := by decide +kernel
      exact hnone _ h hn
    | child _ hc =>
      subst hz
      -- nothing was made by a selection
      have hp : ((run 13 (load .hosting)).session.store.get 0).parent.isNone = true := by
        decide +kernel
      rw [show ((run 13 (load .hosting)).session.store.get 0).parent = _ from
        Forest.parent_of_mem_children hc] at hp
      cases hp
    | sheet h =>
      have hnone : (run 13 (load .hosting)).session.openEntries.isEmpty = true := by decide +kernel
      rw [List.isEmpty_iff.1 hnone] at h
      cases h
    | iteration h =>
      have hnone : (run 13 (load .hosting)).session.iterations.values.isEmpty = true := by
        decide +kernel
      rw [List.isEmpty_iff.1 hnone] at h
      cases h
    | call h =>
      have hnone : (run 13 (load .hosting)).session.calls.isEmpty = true := by decide +kernel
      rw [List.isEmpty_iff.1 hnone] at h
      cases h

/-- The second rule set keeps its parent. -/
theorem keepsParent_hosting : MadeUnder .hosting 13 1 0 ∧ KeepsParent .hosting 13 1 0 :=
  ⟨madeUnder_hosting, keepsParent .hosting 13 1 0 madeUnder_hosting⟩

end Machine

end RuleTree
