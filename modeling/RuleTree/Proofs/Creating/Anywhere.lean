import RuleTree.Proofs.Creating.Forms
import RuleTree.Proofs.Rebuilding.Roots

/-!
# Style sheets without hosts are the same everywhere

* `Session.Supplies`: what a self-contained generator is run with in one session is there in another
  one; `Session.Earlier.supplies`: so it is in all later sessions of a script;
* `Machine.creates_correspond`, `Machine.creates_iff`: a self-contained generator creates the same
  style sheet in both;
* `Machine.CreatesSheets`, `Machine.createsSheets`: the ways to create a style sheet agree, and one
  without a host is a tree that was built and serialized, that leaves the registries alone, and that
  is the same in every state if its generator is self-contained.
-/

namespace RuleTree

/-- What a self-contained generator is run with in a session, apart from its body, is there in
another one: the generators of the script, a log if one is kept, and what may be asked for class
names. -/
structure Session.Supplies (σ σ' : Session) (className : Datum) : Prop where
  generators : σ'.generators = σ.generators
  log : σ'.log.isSome = σ.log.isSome
  naming : ∀ g, className = .generator g → σ.Knows g → σ'.Knows g ∧ σ'.bodyOf g = σ.bodyOf g
  host : ∀ h, className = .host h → σ'.hosts[h]? = σ.hosts[h]?

namespace Session

variable {σ σ' : Session} {className : Datum}

theorem Supplies.compatible (h : σ.Supplies σ' className) {bodies : Bodies}
    (hc : σ.Closes className bodies) : σ'.Compatible σ className bodies :=
  ⟨h.generators, h.log, hc, h.naming, h.host⟩

/-- A generator stays the same. -/
theorem Earlier.bodyOf (h : σ.Earlier σ') {g : Generator} (hg : σ.Knows g) :
    σ'.Knows g ∧ σ'.bodyOf g = σ.bodyOf g := by
  cases g with
  | named name =>
    refine ⟨trivial, ?_⟩
    show (σ'.generators.find? name).getD [] = _
    rw [h.generators]
    rfl
  | inline id =>
    obtain ⟨added, ha⟩ := h.bodies
    refine ⟨?_, ?_⟩
    · show id < σ'.bodies.size
      rw [ha, Array.size_append]
      exact Nat.lt_add_right _ hg
    · show σ'.bodies[id]?.getD [] = σ.bodies[id]?.getD []
      rw [ha, Array.getElem?_append_left hg]

/-- Everything that was made is still there later. -/
theorem Earlier.supplies (h : σ.Earlier σ') (hc : σ.Covers className.identities) :
    σ.Supplies σ' className where
  generators := h.generators
  log := h.log
  naming _ _ := h.bodyOf
  host k hk := by
    obtain ⟨added, ha⟩ := h.hosts
    rw [ha, Array.getElem?_append_left (hc (.host k) (hk ▸ List.mem_singleton_self _))]

/-- What was passed as an option was made. -/
theorem Grounded.covers_className (hg : σ.Grounded) {options : List (String × Datum)}
    (ho : ∀ d ∈ options.map Prod.snd, σ.Covers d.identities) {o : OptionSet}
    (hm : OptionSet.merge (optionsDatum (.ofList options)) = .ok o) :
    σ.Covers o.className.identities := by
  intro i hi
  have ho' : o.get? OptionSet.classNameName = some o.className := rfl
  have hl : i ∈ o.links := OptionSet.mem_links_of_get? ho' hi
  rcases OptionSet.mem_links_of_merge hm hl with ⟨e, he, hi⟩ | rfl
  · exact holds_ofList ho e he i hi
  · exact Nat.lt_trans Nat.zero_lt_one hg.stamps

end Session

namespace Machine

section Creates

variable {m m' : Machine} {g g' : Generator} {options : List (String × Datum)}
  (settled : m.settled = none) (settled' : m'.settled = none) (unhosted : Unhosted options)
  (same : m'.session.bodyOf g' = m.session.bodyOf g)
  (contained : ∀ o, OptionSet.merge (Session.optionsDatum (.ofList options)) = .ok o →
    m.session.SelfContained o.className (m.session.bodyOf g) ∧
      m.session.Supplies m'.session o.className)
include settled settled' unhosted same contained

/-- Either both style sheets are refused for the same reason, or the same body is run for both. So
each one is created if the other one is, and they are the same. -/
theorem creates_correspond (tag tag' : Tag) :
    m.Corresponds m' tag tag' (.create [.generator g] none options)
      (.create [.generator g'] none options) fun _ _ r r' => r = r' := by
  have hb : m.session.begin (.create [.generator g] none options) = _ :=
    Session.begin_create_single unhosted rfl
  have hb' : m'.session.begin (.create [.generator g'] none options) = _ :=
    Session.begin_create_single unhosted rfl
  rcases Session.build_text none (.ofList options) with ⟨e, -, hs⟩ | ⟨o, hm, hs⟩
  · exact corresponds_of_done (hb.trans (hs ..)) (hb'.trans (hs ..)) rfl
  · obtain ⟨L, hl, hL, hparent⟩ := hs m'.session "" g' .css
    obtain ⟨R, hr, hR, hparent'⟩ := hs m.session "" g .css
    obtain ⟨⟨bodies, closes, body⟩, supplies⟩ := contained o (unhosted.erase ▸ hm)
    have hf : (Ground.ofNew L R hL.lt hR.lt leading_empty (.build .css) (.build .css) tag' tag
        m'.session.calls m.session.calls bodies).Fit True :=
      hL.fit hR (supplies.compatible closes) (congrArg Datum.bare (Datum.led_empty _).symm)
        (fun m hm => nomatch hm) leading_empty (.build .css) (.build .css)
    have habreast := hf.abreast rfl rfl ((hb'.trans hl).trans (same ▸ rfl)) (hb.trans hr) body
      settled' settled
    refine (Ground.corresponds (R := fun _ _ r' r => r = r') hf habreast
      (fun i hi => hi.shut (fun _ => hparent) hparent') rfl rfl fun P' P r' r ho hset' hset => ?_).symm
    cases ho with
    | raised e settled settled' =>
      cases hset'.symm.trans settled
      cases hset.symm.trans settled'
      exact congrArg Except.error (Error.led_empty e).symm
    | given twins left right =>
      cases hset'.symm.trans left.settled
      cases hset.symm.trans right.settled
      cases left.finish
      cases right.finish
      exact congrArg (Except.map Result.text) (twins.sameTree hf hL.blank rfl).css.symm

/-- In both states the statement comes to the same text or to the same error. -/
theorem creates_iff (tag tag' : Tag) (r : Except Error Result) :
    (∃ m₁, m.Performs tag (.create [.generator g] none options) r m₁) ↔
      ∃ m₁', m'.Performs tag' (.create [.generator g'] none options) r m₁' := by
  have hc := creates_correspond settled settled' unhosted same contained tag tag'
  constructor
  · rintro ⟨m₁, h⟩
    obtain ⟨r', m₁', h', rfl⟩ := hc.forth h
    exact ⟨m₁', h'⟩
  · rintro ⟨m₁', h'⟩
    obtain ⟨r', m₁, h, rfl⟩ := hc.back h'
    exact ⟨m₁, h⟩

end Creates

/-- How style sheets are created in a state. -/
structure CreatesSheets (m : Machine) : Prop where
  /-- a host and a generator can be passed in three ways, which come to the same -/
  alike : ∀ host generator options, host.isNull = false → generator.isNull = false →
    Unhosted options → m.CreatesAlike host generator options
  /-- without a host, a tree is built for no selector and serialized -/
  serializes : ∀ generator options, m.session.callable generator = true → Unhosted options →
    ∀ tag r m₁, m.Performs tag (.create [generator] none options) r m₁ ↔
      ∃ r' m₁', m.Performs tag (.build (.text "") generator none options) r' m₁' ∧
        r = m₁'.session.serialized r' ∧ m₁ = { m₁' with settled := some (tag, r) }
  /-- and the registries change only by what the generator does -/
  spares : ∀ generator options, m.session.callable generator = true → Unhosted options → ∀ tag,
    m.SparesRegistries tag (.create [generator] none options)
  /-- what a self-contained generator creates is the same in any other state, of this script or
  another one, in which there is everything that the generator is run with -/
  anywhere : ∀ (m' : Machine) g g' options, m'.settled = none → Unhosted options →
    m'.session.bodyOf g' = m.session.bodyOf g →
    (∀ o, OptionSet.merge (Session.optionsDatum (.ofList options)) = .ok o →
      m.session.SelfContained o.className (m.session.bodyOf g) ∧
        m.session.Supplies m'.session o.className) → ∀ tag tag' r,
      (∃ m₁, m.Performs tag (.create [.generator g] none options) r m₁) ↔
        ∃ m₁', m'.Performs tag' (.create [.generator g'] none options) r m₁'
  /-- and so it is in all later states of the script -/
  later : ∀ j g options, (run j m).settled = none → Unhosted options → m.session.Knows g →
    (∀ d ∈ options.map Prod.snd, m.session.Covers d.identities) →
    (∀ o, OptionSet.merge (Session.optionsDatum (.ofList options)) = .ok o →
      m.session.SelfContained o.className (m.session.bodyOf g)) → ∀ tag tag' r,
      (∃ m₁, m.Performs tag (.create [.generator g] none options) r m₁) ↔
        ∃ m₁', (run j m).Performs tag' (.create [.generator g] none options) r m₁'

/-- In every state of a script the ways to create a style sheet agree, and a style sheet without a
host is created afresh. -/
theorem createsSheets (s : Script) (k : Nat) (settled : (run k (load s)).settled = none) :
    (run k (load s)).CreatesSheets where
  alike _ _ _ hh hg unhosted := createsAlike _ hh hg unhosted
  serializes _ _ hc unhosted _ _ _ := performs_create_iff hc unhosted
  spares _ _ hc unhosted tag := sparesRegistries hc unhosted tag
  anywhere _ _ _ _ settled' unhosted same contained :=
    creates_iff settled settled' unhosted same contained
  later j _ _ settled' unhosted knows covered contained := by
    have he := earlier_run s k j
    exact creates_iff settled settled' unhosted (he.bodyOf knows).2 fun o hm =>
      ⟨contained o hm, he.supplies ((grounded s k).session.covers_className covered hm)⟩

end Machine

/-- A script that creates the style sheet of a host. -/
def Script.creating : Script where
  steps := [
    .mk (.makeHost "button" .plain) none none,
    .mk (.render defaultRegistry (.host "button") (.named "nest") []) none none]
  generators := .ofList [("nest", Body.nesting)]
  logs := true

/-- At its end there is a style sheet of the host; one without a host is still the same as before. -/
theorem Machine.createsSheets_creating :
    (run 10 (load .creating)).session.sheet? firstRegistry (.host 0) = some 0 ∧
    (∃ a m₁ m₁', (load .creating).Performs ⟨[], none, none⟩
        (.create [.generator (.named "nest")] none []) (.ok a) m₁ ∧
      (run 10 (load .creating)).Performs ⟨[], none, none⟩
        (.create [.generator (.named "nest")] none []) (.ok a) m₁') ∧
    (run 10 (load .creating)).CreatesSheets := by
  have settled : (run 10 (load .creating)).settled = none :=
    Option.isNone_iff_eq_none.1 (by decide +kernel)
  obtain ⟨a, before⟩ := cleanly_of_run (load .creating) ⟨[], none, none⟩
    (.create [.generator (.named "nest")] none []) 6 (by decide +kernel) (by decide +kernel)
    (by decide +kernel) (by decide +kernel)
  obtain ⟨m₁', after⟩ := ((createsSheets .creating 0 rfl).later 10 (.named "nest") [] settled nofun
    trivial nofun (fun _ _ => Session.selfContained_nesting _ _) ⟨[], none, none⟩ ⟨[], none, none⟩
    (.ok a)).1 ⟨_, before.performs⟩
  exact ⟨by decide +kernel, ⟨a, _, m₁', before.performs, after⟩, createsSheets .creating 10 settled⟩

end RuleTree
