import RuleTree.Proofs.Options.Merge
import RuleTree.Proofs.Rebuilding.Fresh
import RuleTree.Proofs.Rebuilding.Shapes
import RuleTree.Proofs.References.Runs

/-!
# A reset against a build

* `Session.begin_reset`, `Session.begin_build`: the two statements;
* `Machine.Level`: two states, in one of which a rule set is reset by a generator while one like it
  is built in the other;
* `Machine.Level.pairing`, `Machine.Matched`: what the two statements come to: the same error, or
  the two rule sets, in stores that mirror each other;
* `Machine.Level.corresponds`, `Machine.Level.cleanly`: the one statement is completed if the other
  one is.
-/

namespace RuleTree

namespace Session

variable {σ : Session}

/-- What a handle stands for. -/
theorem target_handle {name : String} {n : NodeId}
    (h : σ.handles.find? name = some n) : σ.target (.handle name) = .node n := by
  unfold target
  simp only [h]
  rfl

theorem begin_reset {t : Target} {r : NodeId} (ht : σ.target t = .node r) (generator : Datum) :
    σ.begin (.reset t generator) = σ.reset r none .node generator := by
  unfold begin onNode
  simp only [ht]

/-- A build whose options can be merged, by a generator. -/
theorem begin_build {options : List (String × Datum)} {o : OptionSet}
    (ho : OptionSet.merge (optionsDatum (.ofList options)) = .ok o) (selector : Datum)
    (g : Generator) : σ.begin (.build selector (.generator g) none options) =
      σ.fill (σ.store.plant selector none o) σ.store.next (.build σ.store.next .node)
        (.generator g) := by
  have not_known {name : String} (hn : name ∉ OptionSet.knownNames) :
      (Table.ofList options).contains name = false := OptionSet.not_contains_of_merge ho hn
  have hany : hasAny (Table.ofList options) ["selector", "generate"] = false := by
    unfold hasAny
    rw [List.any_cons, List.any_cons, not_known (by decide), not_known (by decide)]
    rfl
  have hn : (Table.ofList options).contains hostOption = false := not_known (by decide)
  have hhost := Table.find?_of_not_contains hn
  have herase := Table.erase_of_not_contains hn
  unfold begin build
  simp only [hany, hhost, herase]
  unfold buildRoot
  simp only [ho]
  rfl

end Session

namespace Machine

/-- Two states, in one of which a rule set is reset by a generator while one like it is built with
the same options in the other. If the comparison is closed, no rule set stands above. -/
structure Level (closed : Prop) (m m' : Machine) (t : Target) (r : NodeId) (g : Generator)
    (options : List (String × Datum)) (bodies : Bodies) : Prop where
  settled : m.settled = none
  settled' : m'.settled = none
  target : m.session.target t = .node r
  options : OptionSet.merge (Session.optionsDatum (.ofList options)) =
    .ok (m.session.store.optionsOf r)
  parent : closed → (m.session.store.get r).parent = none
  resettable : m.session.Resettable closed m'.session r g bodies

namespace Level

variable {closed : Prop} {m m' m₁ m₁' : Machine} {t : Target} {r : NodeId} {g : Generator}
  {options : List (String × Datum)} {bodies : Bodies} {tag tag' : Tag}
  {res res' : Except Error Result}

/-- The stores at the start: the rule set emptied, if need be, and the new one made. -/
def pairing (h : m.Level closed m' t r g options bodies) : Pairing where
  left := (Session.Resettable.emptied m.session r).store
  right := (Session.Resettable.planted m.session m'.session r).store
  root := r
  root' := m'.session.store.next
  root_lt := by
    rw [Session.Resettable.next_emptied]
    exact h.resettable.lt
  root'_lt := by
    rw [Session.Resettable.next_planted]
    exact Nat.lt_succ_self _
  lead := ""
  leading := leading_empty

/-- What the two statements come to. -/
inductive Matched (h : m.Level closed m' t r g options bodies) (m₁ m₁' : Machine)
    (res res' : Except Error Result) : Prop
  | failed (e : Error) (left : res = .error e) (right : res' = .error e)
  | completed (left : res = .ok (.value (.node r)))
    (right : res' = .ok (.value (.node m'.session.store.next)))
    (extends_left : m.session.Extends m₁.session) (extends_right : m'.session.Extends m₁'.session)
    (mirrors : h.pairing.Mirrors m₁.session.store m₁'.session.store)

variable (h : m.Level closed m' t r g options bodies)
include h

/-- The selector that the build is given. -/
theorem begin_build : m'.session.begin (.build (m'.session.store.get r).selector (.generator g) none
    options) = m'.session.fill (Session.Resettable.planted m.session m'.session r).store
      m'.session.store.next (.build m'.session.store.next .node) (.generator g) :=
  Session.begin_build h.options _ g

/-- Either both statements are refused at once, or the same body is run, with no rule set above. -/
theorem start (tag tag' : Tag) :
    (∃ e σ₁ σ₁', m.session.begin (.reset t (.generator g)) = .refuse σ₁ e ∧
      m'.session.begin (.build (m'.session.store.get r).selector (.generator g) none options) =
        .refuse σ₁' e) ∨
    ∃ γ : Ground, γ.tag = tag ∧ γ.tag' = tag' ∧ m.session.calls = γ.outer ∧
      m'.session.calls = γ.outer' ∧ γ.Fit closed ∧
      γ.Abreast (m.perform tag (.reset t (.generator g)))
        (m'.perform tag'
          (.build (m'.session.store.get r).selector (.generator g) none options)) ∧
      (∀ P P', γ.Abreast P P' → Ground.Shut γ closed P.session P'.session) ∧
      ∀ P P' res res', γ.Over P P' → P.settled = some (tag, res) → P'.settled = some (tag', res') →
        Matched h P P' res res' := by
  have hr := h.resettable
  rcases hr.start with
    ⟨e, σ₁, σ₁', hs, hs'⟩ | ⟨L₁, R₁, hs, hs', hL, hL', hR, hR'⟩
  · exact .inl ⟨e, σ₁, σ₁', (Session.begin_reset h.target _).trans hs, h.begin_build.trans hs'⟩
  · have hb := (Session.begin_reset h.target _).trans hs
    have hb' := h.begin_build.trans hs'
    refine .inr ⟨_, rfl, rfl, rfl, rfl, hr.fit hL hL' hR hR',
      hr.abreast hL hL' hR hR' h.settled h.settled' hb hb', fun P P' hp => ?_,
      fun P P' res res' ho hset hset' => ?_⟩
    · refine hp.shut (fun hc => ?_) ?_
      · show (L₁.store.get r).parent = none
        rw [hL', (Session.Resettable.madeAs_emptied m.session r r).parent]
        exact h.parent hc
      · show (R₁.store.get m'.session.store.next).parent = none
        rw [hR', Session.Resettable.get_planted]
        rfl
    · cases ho with
      | raised e settled settled' =>
        cases hset.symm.trans settled
        cases hset'.symm.trans settled'
        exact .failed e (congrArg Except.error (Error.led_empty e)) rfl
      | given twins left right =>
        cases hset.symm.trans left.settled
        cases hset'.symm.trans right.settled
        cases left.finish
        cases right.finish
        refine .completed rfl rfl ?_ ?_ ?_
        · rw [left.session]
          exact hL.extends_of.trans (twins.left.trans (.of_kept rfl))
        · rw [right.session]
          exact hR.extends_of.trans (twins.right.trans (.of_kept rfl))
        · have hπ : (Ground.ofReset L₁ R₁ (hr.lt_left hL') (Session.Resettable.lt_right hR')
              tag tag' m.session.calls m'.session.calls bodies).pairing = h.pairing :=
            Pairing.ext hL' hR' rfl rfl rfl
          rw [left.session, right.session, ← hπ]
          exact twins.store

/-- If the comparison is closed, each of the two statements is completed if the other one is. -/
theorem corresponds (hc : closed) (tag tag' : Tag) :
    m.Corresponds m' tag tag' (.reset t (.generator g))
      (.build (m'.session.store.get r).selector (.generator g) none options) (Matched h) := by
  rcases h.start tag tag' with
    ⟨e, σ₁, σ₁', hs, hs'⟩ | ⟨γ, rfl, rfl, hcalls, hcalls', hf, habreast, hshut, hover⟩
  · exact corresponds_of_done hs hs' (.failed e rfl rfl)
  · exact Ground.corresponds (eq_true hc ▸ hf) habreast (fun i hi => eq_true hc ▸ hshut _ _ hi)
      hcalls hcalls' hover

/-- The build is completed if the reset is. -/
theorem performs (hc : closed) (tag' : Tag) {m₁ : Machine}
    (hp : m.Performs tag (.reset t (.generator g)) res m₁) :
    ∃ res' m₁', m'.Performs tag'
      (.build (m'.session.store.get r).selector (.generator g) none options) res' m₁' ∧
        h.Matched m₁ m₁' res res' :=
  (h.corresponds hc tag tag').forth hp

/-- The reset is completed if the build is. -/
theorem performs' (hc : closed) (tag : Tag) {m₁' : Machine} (hp : m'.Performs tag'
      (.build (m'.session.store.get r).selector (.generator g) none options) res' m₁') :
    ∃ res m₁, m.Performs tag (.reset t (.generator g)) res m₁ ∧ h.Matched m₁ m₁' res res' :=
  (h.corresponds hc tag tag').back hp

/-- In any case, the reset is completed without a failure if the build is and gives a rule set. -/
theorem cleanly (tag : Tag) {m₁' : Machine} {a : Result} (hp : m'.Cleanly tag'
      (.build (m'.session.store.get r).selector (.generator g) none options) (.ok a) m₁') :
    ∃ res m₁, m.Cleanly tag (.reset t (.generator g)) res m₁ ∧ h.Matched m₁ m₁' res (.ok a) := by
  rcases h.start tag tag' with
    ⟨e, σ₁, σ₁', -, hs'⟩ | ⟨γ, rfl, rfl, hcalls, hcalls', hf, habreast, hshut, hover⟩
  · cases hp.performs.of_done hs'
  · obtain ⟨res, m₁, hp', ho⟩ := Ground.cleanly_of_cleanly hf habreast
      (fun i hi => hshut _ _ hi) hcalls hcalls' hp
    exact ⟨res, m₁, hp', hover _ _ _ _ ho hp'.performs.choose_spec.2.1
      hp.performs.choose_spec.2.1⟩

/-- What the rule set is before the body is run. -/
theorem blank (hclears : m.session.store.clearsOnReset r = true) :
    (h.pairing.before h.pairing.root').Blank := by
  rw [Pairing.before_root]
  show ((Session.Resettable.emptied m.session r).store.get r).Blank
  rw [Session.Resettable.get_emptied h.resettable.lt hclears]
  exact ⟨rfl, rfl, rfl⟩

theorem selectors : h.pairing.Led := by
  show (((Session.Resettable.emptied m.session r).store.get r).selector).bare =
    (Datum.led "" ((Session.Resettable.planted m.session m'.session r).store.get
      m'.session.store.next).selector).bare
  rw [Datum.led_empty, (Session.Resettable.madeAs_emptied m.session r r).selector,
    Session.Resettable.get_planted, h.resettable.selectors r (Nat.le_refl r)]
  rfl

theorem optionsOf : h.pairing.left.optionsOf h.pairing.root =
    h.pairing.right.optionsOf h.pairing.root' :=
  (Session.Resettable.optionsOf_emptied ..).trans (Session.Resettable.optionsOf_planted ..).symm

end Level

/-- Once the rule set was reset, it can be reset again like one is built in the other state. -/
theorem Level.again {closed : Prop} {m m' m₁ : Machine} {t : Target} {r : NodeId} {g : Generator}
    {options : List (String × Datum)} {bodies : Bodies}
    (h : m.Level closed m' t r g options bodies) (knows : m.session.Knows g)
    (extends_left : m.session.Extends m₁.session)
    (calls : m₁.session.calls = m.session.calls) {s' : Store}
    (mirrors : h.pairing.Mirrors m₁.session.store s') :
    ({ m₁ with settled := none } : Machine).Level closed m' t r g options bodies := by
  have hr := h.resettable
  have hmade : (m.session.store.get r).MadeAs (m₁.session.store.get r) :=
    (Session.Resettable.madeAs_emptied m.session r r).trans mirrors.root
  have ho : m₁.session.store.optionsOf r = m.session.store.optionsOf r := by
    have ho := (mirrors.optionsOf .root).1
    rw [Pairing.image_root] at ho
    exact ho.trans (Session.Resettable.optionsOf_emptied ..)
  have hselector {n : NodeId} (hn : n ≤ r) :
      (m₁.session.store.get n).selector = (m.session.store.get n).selector := by
    rcases Nat.lt_or_eq_of_le hn with hn | rfl
    · have hlt : n < h.pairing.left.next := Nat.lt_trans hn h.pairing.root_lt
      rw [mirrors.older n hlt (Nat.ne_of_lt hn)]
      exact (Session.Resettable.madeAs_emptied m.session r n).selector
    · exact hmade.selector
  exact {
    settled := rfl
    settled' := h.settled'
    target := (extends_left.target calls t).trans h.target
    options := h.options.trans (congrArg Except.ok ho.symm)
    parent := fun hc => hmade.parent.trans (h.parent hc)
    resettable := {
      generators := extends_left.generators.trans hr.generators
      log := extends_left.log.trans hr.log
      same := (extends_left.bodyOf knows).trans hr.same
      closes := ho.symm ▸ hr.closes
      body := hr.body
      naming := fun g' hg' hk => by
        obtain ⟨hk', hb⟩ := hr.naming g' (ho ▸ hg') hk
        exact ⟨extends_left.knows hk', (extends_left.bodyOf hk').trans hb⟩
      host := fun k hk => (congrArg (·[k]?) extends_left.hosts).trans (hr.host k (ho ▸ hk))
      lt := Nat.lt_of_lt_of_le h.pairing.root_lt mirrors.next_le
      lt' := hr.lt'
      selectors := fun n hn => (hselector hn).trans (hr.selectors n hn)
      refers := hr.refers
      clears := fun hc => by
        unfold Store.clearsOnReset
        rw [ho]
        exact hr.clears hc } }

/-- What a statement acts on was made. -/
theorem lt_of_target (s : Script) (k : Nat) {t : Target} {r : NodeId}
    (target : (run k (load s)).session.target t = .node r) :
    r < (run k (load s)).session.store.next :=
  ((grounded s k).session.announced_target target).lt_next

/-- In a state of a script any rule set can be reset like one is built in the same state. -/
theorem resettable {closed : Prop} (s : Script) (k : Nat) {r : NodeId} {g : Generator}
    {bodies : Bodies} (lt : r < (run k (load s)).session.store.next)
    (closes : (run k (load s)).session.Closes
      ((run k (load s)).session.store.optionsOf r).className bodies)
    (body : bodies 1 ((run k (load s)).session.bodyOf g))
    (clears : closed → (run k (load s)).session.store.clearsOnReset r = true) :
    (run k (load s)).session.Resettable closed (run k (load s)).session r g bodies where
  generators := rfl
  log := rfl
  same := rfl
  closes := closes
  body := body
  naming := fun _ _ hk => ⟨hk, rfl⟩
  host := fun _ _ => rfl
  lt := lt
  lt' := lt
  selectors := fun _ _ => rfl
  refers := (grounded s k).session.older r
  clears := clears

end Machine

end RuleTree
