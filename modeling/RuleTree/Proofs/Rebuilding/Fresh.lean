import RuleTree.Proofs.Rebuilding.Completed

/-!
# What two runs of a body start from

* `Session.Alters`: a session that differs in rule sets only, apart from what is recorded;
* `Session.Resettable`: what two sessions have to agree on besides, for a rule set of the first one
  to be reset like one is built in the second one;
* `Session.Resettable.start`: either both fail at once, or the same body is run;
* `Ground.ofReset`, `Session.Resettable.fit`, `Session.Resettable.abreast`: what the two runs start
  from.
-/

namespace RuleTree

/-- Differing in rule sets, stamps and the log only, which is kept or not as before. -/
def Session.Alters (σ σ₁ : Session) : Prop :=
  ∃ store stamps log, log.isSome = σ.log.isSome ∧ σ₁ = { σ with store, stamps, log }

namespace Session.Alters

variable {σ σ₁ : Session} {store : Store}

theorem of_record {stamps : Stamp} {event : LogEvent} {d : Datum}
    (h : { σ with store, stamps }.record event d = .ok σ₁) : σ.Alters σ₁ := by
  unfold record at h
  split at h
  · cases h
    exact ⟨store, stamps, σ.log, rfl, rfl⟩
  · rename_i hs
    cases hd : d.label { σ with store, stamps }.appearance with
    | error e => rw [hd] at h; cases h
    | ok label =>
      rw [hd] at h
      cases h
      exact ⟨store, stamps, _, by rw [show σ.log = _ from hs]; rfl, rfl⟩

theorem extends_of (h : σ.Alters σ₁) : σ.Extends σ₁ := by
  obtain ⟨_, _, _, hl, rfl⟩ := h
  exact .of_kept hl

theorem refl (σ : Session) : σ.Alters σ := ⟨σ.store, σ.stamps, σ.log, rfl, rfl⟩

theorem trans {σ₂ : Session} (h : σ.Alters σ₁) (h' : σ₁.Alters σ₂) : σ.Alters σ₂ := by
  obtain ⟨_, _, _, hl, rfl⟩ := h
  obtain ⟨store, stamps, log, hl', rfl⟩ := h'
  exact ⟨store, stamps, log, hl'.trans hl, rfl⟩

theorem bodyOf (h : σ.Alters σ₁) (g : Generator) : σ₁.bodyOf g = σ.bodyOf g := by
  obtain ⟨_, _, _, -, rfl⟩ := h
  cases g <;> rfl

theorem knows (h : σ.Alters σ₁) (g : Generator) : σ₁.Knows g ↔ σ.Knows g := by
  obtain ⟨_, _, _, -, rfl⟩ := h
  cases g <;> rfl

/-- What may be asked for class names stays the same. -/
theorem mayName (h : σ.Alters σ₁) (bodies : Bodies) (className : Datum) :
    σ₁.MayName bodies className = σ.MayName bodies className := by
  obtain ⟨_, _, _, -, rfl⟩ := h
  funext depth
  unfold MayName
  split
  · rename_i g
    cases g <;> rfl
  · rfl

/-- What two sessions agree on stays so. -/
theorem compatible {L R L₁ R₁ : Session} {className : Datum} {bodies : Bodies} (hL : L.Alters L₁)
    (hR : R.Alters R₁) (h : L.Compatible R className bodies) :
    L₁.Compatible R₁ className bodies where
  generators := by
    rw [hL.extends_of.generators, hR.extends_of.generators, h.generators]
  log := by
    rw [hL.extends_of.log, hR.extends_of.log, h.log]
  closes := by
    unfold Closes
    rw [hR.mayName, hR.extends_of.generators]
    exact h.closes
  naming := fun g hg hk => by
    obtain ⟨hk', hb⟩ := h.naming g hg ((hR.knows g).1 hk)
    refine ⟨(hL.knows g).2 hk', ?_⟩
    rw [hL.bodyOf, hR.bodyOf, hb]
  host := fun k hk => by
    rw [hL.extends_of.hosts, hR.extends_of.hosts]
    exact h.host k hk

end Session.Alters

/-- What two sessions have to agree on for a rule set of the first one to be reset by a generator
like one is built by it in the second. Either the rule set is emptied first, or the comparison is
not closed. -/
structure Session.Resettable (closed : Prop) (L R : Session) (r : NodeId) (g : Generator)
    (bodies : Bodies) : Prop extends L.Compatible R (L.store.optionsOf r).className bodies where
  same : L.bodyOf g = R.bodyOf g
  body : bodies 1 (R.bodyOf g)
  lt : r < L.store.next
  lt' : r < R.store.next
  selectors : ∀ n ≤ r, (L.store.get n).selector = (R.store.get n).selector
  refers : ∀ m, .node m ∈ (R.store.get r).selector.identities → m < r
  clears : closed → L.store.clearsOnReset r = true

namespace Session.Resettable

variable {closed : Prop} {L R L₁ R₁ : Session} {r : NodeId} {g : Generator} {bodies : Bodies}

/-- The second session with the new root. -/
def planted (L R : Session) (r : NodeId) : Session :=
  { R with store := R.store.plant (R.store.get r).selector none (L.store.optionsOf r) }

/-- The first session with the rule set emptied, if need be. -/
def emptied (L : Session) (r : NodeId) : Session := { L with store := L.store.clearForReset r }

theorem next_emptied (L : Session) (r : NodeId) : (emptied L r).store.next = L.store.next := by
  show (L.store.clearForReset r).next = _
  unfold Store.clearForReset
  split
  · exact Store.next_clear ..
  · rfl

/-- What is cleared on reset holds nothing then. -/
theorem get_emptied (hl : r < L.store.next) (hc : L.store.clearsOnReset r = true) :
    (emptied L r).store.get r =
      { L.store.get r with text := "", children := [], scope := .empty } := by
  show (L.store.clearForReset r).get r = _
  unfold Store.clearForReset
  rw [if_pos hc, Store.get_clear, if_pos ⟨rfl, hl⟩]

theorem madeAs_emptied (L : Session) (r n : NodeId) :
    (L.store.get n).MadeAs ((emptied L r).store.get n) := by
  show (L.store.get n).MadeAs ((L.store.clearForReset r).get n)
  unfold Store.clearForReset
  split
  · rw [Store.get_clear]
    split
    · exact ⟨rfl, rfl, rfl, rfl⟩
    · exact .refl _
  · exact .refl _

theorem optionsOf_emptied (L : Session) (r : NodeId) :
    (emptied L r).store.optionsOf r = L.store.optionsOf r := by
  have ho : (emptied L r).store.options = L.store.options := by
    show (L.store.clearForReset r).options = _
    unfold Store.clearForReset
    split <;> rfl
  unfold Store.optionsOf
  rw [ho, (madeAs_emptied L r r).options]

theorem next_planted (L R : Session) (r : NodeId) :
    (planted L R r).store.next = R.store.next + 1 := Store.next_plant ..

theorem get_planted (L R : Session) (r : NodeId) :
    (planted L R r).store.get R.store.next =
      .fresh (R.store.get r).selector none none R.store.options.size :=
  (Store.get_plant ..).trans (if_pos rfl)

theorem get_planted_of_lt {n : NodeId} (hn : n < R.store.next) :
    (planted L R r).store.get n = R.store.get n :=
  (Store.get_plant ..).trans (if_neg (Nat.ne_of_lt hn))

theorem optionsOf_planted (L R : Session) (r : NodeId) :
    (planted L R r).store.optionsOf R.store.next = L.store.optionsOf r := by
  unfold Store.optionsOf
  rw [get_planted]
  show (R.store.options.push (L.store.optionsOf r))[R.store.options.size]?.getD default = _
  rw [Array.getElem?_push_size]
  rfl

variable (h : Resettable closed L R r g bodies)
include h

/-- Either both fail at once, or the same body is run. -/
theorem start : (∃ e σ σ', L.reset r none .node (.generator g) = .refuse σ e ∧
      R.fill (planted L R r).store R.store.next (.build R.store.next .node) (.generator g) =
        .refuse σ' e) ∨
    ∃ L₁ R₁, L.reset r none .node (.generator g) =
        .enter L₁ (.reset r none .node) (R.bodyOf g) ∧
      R.fill (planted L R r).store R.store.next (.build R.store.next .node) (.generator g) =
        .enter R₁ (.build R.store.next .node) (R.bodyOf g) ∧
      L.Alters L₁ ∧ L₁.store = (emptied L r).store ∧
      R.Alters R₁ ∧ R₁.store = (planted L R r).store := by
  have hsel : ((emptied L r).store.get r).selector =
      ((planted L R r).store.get R.store.next).selector := by
    rw [(madeAs_emptied L r r).selector, get_planted]
    exact h.selectors r (Nat.le_refl r)
  have hshared (m : NodeId) (hm : m < r) : ((emptied L r).store.get m).selector =
      ((planted L R r).store.get m).selector := by
    rw [(madeAs_emptied L r m).selector, get_planted_of_lt (Nat.lt_trans hm h.lt')]
    exact h.selectors m (Nat.le_of_lt hm)
  have hlabel : Agree
      (((emptied L r).store.get r).selector.label (emptied L r).appearance)
      (((planted L R r).store.get R.store.next).selector.label
        (planted L R r).appearance) := by
    refine Datum.label_agree_of_bare (congrArg Datum.bare hsel) fun m hm => ?_
    rw [get_planted] at hm
    exact Store.label_agree (fun m hm => congrArg Datum.bare (hshared m hm)) (h.refers m hm)
  have hlog : (emptied L r).log.isSome = (planted L R r).log.isSome := h.log
  rcases record_agree hlog hlabel .resetting .generating with
    ⟨e, -, he, he'⟩ | ⟨log, log', he, he', -, -⟩
  · exact .inl ⟨e, emptied L r, planted L R r, reset_of_error rfl he _ _,
      fill_of_error he' _ _⟩
  · let L₁ : Session := { emptied L r with log }
    let R₁ : Session := { planted L R r with log := log' }
    have hL : L.Alters L₁ := .of_record he
    have hR : R.Alters R₁ := .of_record he'
    refine .inr ⟨L₁, R₁, (reset_of_ok rfl he _ _).trans ?_, (fill_of_ok he' _ _).trans ?_, hL,
      store_of_record he, hR, store_of_record he'⟩
    · show Start.enter L₁ _ (L₁.bodyOf g) = _
      rw [hL.bodyOf, ← h.same]
    · show Start.enter R₁ _ (R₁.bodyOf g) = _
      rw [hR.bodyOf]

end Session.Resettable

/-- Two runs of a body: to fill a rule set again, and to fill one that was made last. -/
def Ground.ofReset (L₁ R₁ : Session) {r n : NodeId} (hr : r < L₁.store.next)
    (hn : n < R₁.store.next) (tag tag' : Tag) (outer outer' : List Call) (bodies : Bodies) :
    Ground where
  left := L₁
  right := R₁
  root := r
  root' := n
  root_lt := hr
  root'_lt := hn
  lead := ""
  leading := leading_empty
  purpose := .reset r none .node
  purpose' := .build n .node
  fills := .reset none .node
  fills' := .build .node
  tag := tag
  tag' := tag'
  outer := outer
  outer' := outer'
  bodies := bodies
  bound := r

namespace Session.Resettable

variable {closed : Prop} {L R L₁ R₁ : Session} {r : NodeId} {g : Generator} {bodies : Bodies}
  {tag tag' : Tag}
  {outer outer' : List Call}

theorem lt_left (h : Resettable closed L R r g bodies) (hs : L₁.store = (emptied L r).store) :
    r < L₁.store.next := by
  rw [hs, next_emptied]
  exact h.lt

theorem lt_right (hs : R₁.store = (planted L R r).store) : R.store.next < R₁.store.next := by
  rw [hs, next_planted]
  exact Nat.lt_succ_self _

/-- What the two runs have in common at the start. -/
theorem fit (h : Resettable closed L R r g bodies) (hL : L.Alters L₁)
    (hs : L₁.store = (emptied L r).store) (hR : R.Alters R₁)
    (hs' : R₁.store = (planted L R r).store) :
    (Ground.ofReset L₁ R₁ (h.lt_left hs) (lt_right hs') tag tag' outer outer'
      bodies).Fit closed := by
  have hopt : L₁.store.optionsOf r = L.store.optionsOf r := by
    rw [hs]
    exact optionsOf_emptied L r
  have hopt' : R₁.store.optionsOf R.store.next = L.store.optionsOf r := by
    rw [hs']
    exact optionsOf_planted L R r
  have hsel (n : NodeId) : (L₁.store.get n).selector = (L.store.get n).selector := by
    rw [hs, (madeAs_emptied L r n).selector]
  have hroot : R₁.store.get R.store.next =
      .fresh (R.store.get r).selector none none R.store.options.size := by
    rw [hs']
    exact get_planted L R r
  have hold {n : NodeId} (hn : n < R.store.next) : R₁.store.get n = R.store.get n := by
    rw [hs']
    exact get_planted_of_lt hn
  have hclass : (R₁.store.optionsOf R.store.next).className = (L.store.optionsOf r).className :=
    congrArg OptionSet.className hopt'
  have hcompatible : L₁.Compatible R₁ (R₁.store.optionsOf R.store.next).className bodies := by
    rw [hclass]
    exact hL.compatible hR h.toCompatible
  exact {
    hcompatible with
    options := hopt.trans hopt'.symm
    selector := by
      show (L₁.store.get r).selector.bare = ((R₁.store.get R.store.next).selector.led "").bare
      rw [Datum.led_empty, hsel, hroot, h.selectors r (Nat.le_refl r)]
      rfl
    refers := by
      show ∀ m, _ ∈ (R₁.store.get R.store.next).selector.identities → m < r
      rw [hroot]
      exact h.refers
    bound_le := Nat.le_refl r
    bound_le' := Nat.le_of_lt h.lt'
    shared := fun m hm => by
      show (L₁.store.get m).selector = (R₁.store.get m).selector
      rw [hsel, hold (Nat.lt_trans hm h.lt')]
      exact h.selectors m (Nat.le_of_lt hm)
    empty' := by
      show (R₁.store.get R.store.next).text = "" ∧ (R₁.store.get R.store.next).children = [] ∧
        (R₁.store.get R.store.next).scope = .empty
      rw [hroot]
      exact ⟨rfl, rfl, rfl⟩
    mode := by
      show ((L₁.store.get r).text = "" ∧ (L₁.store.get r).children = [] ∧
          (L₁.store.get r).scope = .empty) ∨
        ¬closed ∧ R₁.store.clearsOnReset R.store.next = false
      cases hm : L.store.clearsOnReset r with
      | true =>
        left
        rw [hs, get_emptied h.lt hm]
        exact ⟨rfl, rfl, rfl⟩
      | false =>
        refine .inr ⟨fun hc => ?_, ?_⟩
        · rw [h.clears hc] at hm
          cases hm
        · unfold Store.clearsOnReset
          rw [hopt']
          exact hm }

/-- Once the body is entered, the two machines are side by side. -/
theorem abreast (h : Resettable closed L R r g bodies) (hL : L.Alters L₁)
    (hs : L₁.store = (emptied L r).store) (hR : R.Alters R₁)
    (hs' : R₁.store = (planted L R r).store) {m m' : Machine}
    {action action' : Action Datum (List Stmt)} (hm : m.settled = none) (hm' : m'.settled = none)
    (hb : m.session.begin action = .enter L₁ (.reset r none .node) (R.bodyOf g))
    (hb' : m'.session.begin action' = .enter R₁ (.build R.store.next .node) (R.bodyOf g)) :
    (Ground.ofReset L₁ R₁ (h.lt_left hs) (lt_right hs') tag tag' m.session.calls
      m'.session.calls bodies).Abreast (m.perform tag action) (m'.perform tag' action') := by
  have hf : (Ground.ofReset L₁ R₁ (h.lt_left hs) (lt_right hs') tag tag'
      m.session.calls m'.session.calls bodies).Fit closed := h.fit hL hs hR hs'
  exact hf.abreast rfl rfl hb hb' h.body hm hm'

end Session.Resettable

end RuleTree
