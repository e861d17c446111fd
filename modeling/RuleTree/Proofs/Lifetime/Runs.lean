import RuleTree.Proofs.Lifetime.Operations

/-!
# What is dead stays dead

* `Machine.Closed`: a machine in whose session a property is closed, and one of whatever the
  statement that was just completed came to;
* `Machine.Closed.step`, `Machine.Closed.run`: so it stays;
* `Machine.EmptyHanded`: no result waits to be kept that refers to anything dead;
* `Machine.not_alive_run`: what is dead then is dead ever after.

While the result of a completed statement waits to be kept, nothing but the machine holds it.
-/

namespace RuleTree

namespace Session

variable {σ σ' : Session} {purpose : Purpose} {body : List Stmt} {id : RegistryId}

/-- A statement waits for work on a registry that is in use. -/
theorem mem_openRegistries_of_enter {action : Action Datum (List Stmt)}
    (h : σ.begin action = .enter σ' purpose body) (hr : purpose.registry? = some id) :
    id ∈ σ'.openRegistries := by
  rcases amends_of_enter h with ha | ⟨name, ha⟩
  · rw [List.mem_singleton.1 (ha.registry σ' purpose body id h hr)]
    exact List.mem_cons_self
  · rw [List.mem_singleton.1 (ha.registry σ' purpose body id h hr)]
    have hsession := ha.session
    rw [h] at hsession
    obtain ⟨_, _, _, _, -, he⟩ := hsession
    change σ' = _ at he
    rw [he]
    exact σ.mem_openRegistries_withRegistry name

end Session

namespace Machine

variable {m : Machine} {P : Identity → Prop}

/-- A property is closed in the session, and is one of whatever the statement that was just completed
came to. -/
structure Closed (m : Machine) (P : Identity → Prop) : Prop where
  session : m.session.Closed P
  settled : ∀ tag r, m.settled = some (tag, .ok r) → ∀ i ∈ r.datum.identities, P i

theorem Closed.settle (h : m.Closed P) {tag : Tag} {r : Except Error Result}
    (hs : m.settled = some (tag, r)) : (m.settle tag r).Closed P := by
  have hk := h.session.keepResult tag fun a ha => h.settled tag a (ha ▸ hs)
  unfold Machine.settle
  simp only
  generalize r.bind _ = told
  -- the trace refers to nothing
  have hrecord : (record (keepResult m.session tag r) tag told).Closed P :=
    hk.of_same (.of_kept rfl rfl rfl rfl rfl rfl) rfl rfl { hk.rooted with } fun _ he => .inl he
  split
  · rename_i call below hcalls
    have hsub : below ⊆ (keepResult m.session tag r).calls :=
      hcalls ▸ List.subset_cons_self _ _
    refine ⟨hrecord.of_calls (fun c hc => hrecord.rooted.calls c (hsub hc)) fun c hc id hid => ?_,
      fun tag' a ha => ?_⟩
    · exact List.mem_append_right _ (List.mem_filterMap.2 ⟨c, hsub hc, hid⟩)
    · unfold afterError at ha
      split at ha
      · cases ha
        nofun
      · cases ha
  · exact ⟨hrecord, nofun⟩

/-- A statement begins that was passed nothing but what has the property. -/
theorem Closed.perform (h : m.session.Closed P) (hg : m.session.Grounded) (hs : m.settled = none)
    (tag : Tag) {action : Action Datum (List Stmt)}
    (ha : ∀ i ∈ action.arguments.flatMap Datum.identities, P i) : (m.perform tag action).Closed P := by
  have hst := Session.closed_begin h hg ha
  cases hb : m.session.begin action with
  | done σ r =>
    rw [perform_done hb]
    rw [hb] at hst
    exact ⟨hst.session, fun tag' b hb' => hst.result b (by cases hb'; rfl)⟩
  | enter σ purpose body =>
    rw [perform_enter hb]
    have hcalls := m.session.calls_begin action
    rw [hb] at hst hcalls
    have hin (id : RegistryId) (hid : id ∈ purpose.registry?) : id ∈ σ.openRegistries :=
      Session.mem_openRegistries_of_enter hb hid
    refine ⟨hst.session.of_calls (fun c hc => ?_) (fun c hc id hid => ?_), fun tag' b hb' => ?_⟩
    · rcases List.mem_cons.1 hc with rfl | hc
      · intro i hi
        rcases List.mem_append.1 hi with hi | hi
        · rcases List.mem_append.1 hi with hi | hi
          · obtain ⟨d, hd, hi⟩ := List.mem_flatMap.1 hi
            obtain ⟨t, -, rfl⟩ := Option.map_eq_some_iff.1 (Option.mem_toList.1 hd)
            exact h.target t i hi
          · exact ha i hi
        · exact hst.purpose σ purpose body rfl i hi
      · exact h.rooted.calls c hc
    · rcases List.mem_cons.1 hc with rfl | hc
      · exact hin id hid
      · exact List.mem_append_right _ (List.mem_filterMap.2 ⟨c, hcalls ▸ hc, hid⟩)
    · cases hs.symm.trans hb'

/-- A statement begins, once its arguments are worked out. -/
theorem Closed.beginStmt (h : m.session.Closed P) (hg : m.session.Grounded) (hs : m.settled = none)
    (tag : Tag) (action : Action Expr (List Stmt)) : (m.beginStmt tag action).Closed P := by
  rw [beginStmt_eq]
  cases he : Session.evalAction action m.session with
  | error e => exact ⟨h, nofun⟩
  | ok p =>
    obtain ⟨a, σ⟩ := p
    obtain ⟨h₁, ha⟩ := h.tells (Session.tells_evalAction (.refl m.session) action) he
    exact perform (m := { m with session := σ }) h₁
      (hg.follows ((Session.keeps_evalAction action).follows he)) hs tag ha

/-- A step keeps a property closed. -/
theorem Closed.step (h : m.Closed P) (hg : m.Grounded) : m.step.Closed P := by
  cases m.turn with
  | settle settled step =>
    rw [step]
    exact h.settle settled
  | begin settled proceeds step =>
    rw [step]
    cases proceeds with
    | @script s rest calls steps =>
      let m₀ : Machine := { m with steps := rest, index := m.index + 1 }
      exact beginStmt (m := m₀) h.session hg.session settled _ _
    | @body call below s rest calls statements =>
      let m₀ : Machine := { m with session := { m.session with
        calls := { call with rest, index := call.index + 1 } :: below } }
      have hmem (c : Call) (hc : c ∈ below) : c ∈ m.session.calls :=
        calls ▸ List.mem_cons_of_mem _ hc
      have hcall : call ∈ m.session.calls := calls ▸ List.mem_cons_self
      have h₀ : m₀.session.Closed P := by
        refine h.session.of_calls (fun c hc => ?_) fun c hc id hid => List.mem_append_right _ ?_
        · rcases List.mem_cons.1 hc with rfl | hc
          · exact h.session.rooted.calls call hcall
          · exact h.session.rooted.calls c (hmem c hc)
        · rcases List.mem_cons.1 hc with rfl | hc
          · exact List.mem_filterMap.2 ⟨call, hcall, hid⟩
          · exact List.mem_filterMap.2 ⟨c, hmem c hc, hid⟩
      have hg₀ : m₀.session.Grounded := hg.session.of_calls fun c hc => by
        rcases List.mem_cons.1 hc with rfl | hc
        · exact hg.session.purposes call hcall
        · exact hg.session.purposes c (hmem c hc)
      exact beginStmt (m := m₀) h₀ hg₀ settled _ _
  | @finish call below settled calls rest step =>
    rw [step]
    have hcall : call ∈ m.session.calls := calls ▸ List.mem_cons_self
    have hst := Session.closed_finish h.session (hg.session.purposes call hcall) fun i hi =>
      h.session.rooted.calls call hcall i (List.mem_append_right _ hi)
    have hcalls := m.session.calls_finish call.purpose
    unfold finishCall
    cases hf : m.session.finish call.purpose with
    | done σ₁ r =>
      rw [hf] at hst hcalls
      have hsub : σ₁.calls.tail ⊆ σ₁.calls := (List.tail_sublist _).subset
      refine ⟨hst.session.of_calls (fun c hc => hst.session.rooted.calls c (hsub hc))
        (fun c hc id hid => List.mem_append_right _ (List.mem_filterMap.2 ⟨c, hsub hc, hid⟩)),
        fun tag a ha => hst.result a (by cases ha; rfl)⟩
    | enter σ₁ purpose body =>
      rw [hf] at hst hcalls
      have hsub : σ₁.calls.tail ⊆ σ₁.calls := (List.tail_sublist _).subset
      have hnone (id : RegistryId) (hid : id ∈ purpose.registry?) : False :=
        List.not_mem_nil ((Session.amends_of_finish hf).registry σ₁ purpose body id hf hid)
      refine ⟨hst.session.of_calls (fun c hc => ?_) (fun c hc id hid => ?_), fun tag a ha => ?_⟩
      · rcases List.mem_cons.1 hc with rfl | hc
        · intro i hi
          rcases List.mem_append.1 hi with hi | hi
          · exact h.session.rooted.calls call hcall i (List.mem_append_left _ hi)
          · exact hst.purpose σ₁ purpose body rfl i hi
        · exact hst.session.rooted.calls c (hsub hc)
      · rcases List.mem_cons.1 hc with rfl | hc
        · exact (hnone id hid).elim
        · exact List.mem_append_right _ (List.mem_filterMap.2 ⟨c, hsub hc, hid⟩)
      · cases settled.symm.trans ha
  | idle _ _ _ step =>
    rw [step]
    exact h

theorem Closed.run (h : m.Closed P) (hg : m.Grounded) (k : Nat) : (Machine.run k m).Closed P := by
  induction k with
  | zero => exact h
  | succ k ih =>
    rw [run_step]
    exact ih.step (hg.run k).2

/-- No result waits to be kept that refers to anything dead. -/
def EmptyHanded (m : Machine) : Prop :=
  ∀ tag r, m.settled = some (tag, .ok r) → ∀ i ∈ r.datum.identities, m.session.alive i = true

/-- The host of an entry was made. -/
theorem made_host (s : Script) (k : Nat) : ∀ e ∈ (Machine.run k (load s)).session.openEntries,
    (Machine.run k (load s)).session.Made e.host := by
  intro e he
  obtain ⟨id, -, he⟩ := List.mem_flatMap.1 he
  obtain ⟨i, hk, -⟩ := (shelved s k).filed id e he
  exact Session.made_of_has hk.made.1

/-- In a state of a script, being alive or not made yet is a closed property. -/
theorem closed_living (s : Script) (k : Nat) (h : (Machine.run k (load s)).EmptyHanded) :
    (Machine.run k (load s)).Closed fun i =>
      (Machine.run k (load s)).session.alive i = true ∨ ¬ (Machine.run k (load s)).session.Made i where
  session := .living (made_host s k)
  settled tag r hr i hi := .inl (h tag r hr i hi)

/-- What is dead, and no result in hand refers to, is dead ever after. -/
theorem not_alive_run (s : Script) (k : Nat) (h : (Machine.run k (load s)).EmptyHanded)
    {i : Identity} (hm : (Machine.run k (load s)).session.Made i)
    (hd : (Machine.run k (load s)).session.alive i = false) (j : Nat) :
    (Machine.run j (Machine.run k (load s))).session.alive i = false := by
  have hclosed := (closed_living s k h).run (grounded s k) j
  refine Bool.eq_false_iff.2 fun ha => ?_
  rcases hclosed.session.alive i ha with h | h
  · cases hd.symm.trans h
  · exact h hm

end Machine

end RuleTree
