import RuleTree.Proofs.Rebuilding.Accumulated
import RuleTree.Proofs.Rebuilding.Roots
import RuleTree.Proofs.Sheets.Entered
import RuleTree.Proofs.Sheets.Latest

/-!
# Rendering for a host again and again

* `Session.Shows`: a value can be shown when it is recorded;
* `Session.Holds`: a rule set has a text but no block of its own;
* `Session.obtain_new`, `Session.obtain_again`: the first style sheet of a host is built, a later
  one reset;
* `Machine.Gives`: a self-contained generator builds a rule set that has a text but no block of its
  own;
* `Machine.Renders`: successive renderings, each of which has another text behind the one before;
* `Session.Serves`, `Machine.renders_of_serves`: each rendering prepares the next one;
* `Machine.accumulates`: a rule set that is kept on reset accumulates what it is reset by, and so
  does the style sheet of a host what it is rendered by.
-/

namespace RuleTree

namespace Session

variable {σ σ₁ L : Session} {r : NodeId} {o : OptionSet} {text t : String} {name : String}
  {id : RegistryId} {host : Datum} {i : Identity} {options : List (String × Datum)}

/-- A value refers to no rule sets but those that were made, and can be shown if a log is kept. -/
structure Shows (σ : Session) (d : Datum) : Prop where
  made : ∀ n, .node n ∈ d.identities → n < σ.store.next
  label : σ.log.isSome = true → ∃ l, d.label σ.appearance = .ok l

theorem Shows.record {d : Datum} (h : σ.Shows d) (event : LogEvent) :
    ∃ σ₁, σ.record event d = .ok σ₁ := by
  cases hl : σ.log with
  | none =>
    unfold Session.record
    rw [hl]
    exact ⟨_, rfl⟩
  | some records => exact record_of_label event (h.label (by rw [hl]; rfl))

/-- A value can still be shown when other rule sets have been made. -/
theorem Shows.later {d : Datum} (h : σ.Shows d) (hl : σ₁.log.isSome = σ.log.isSome)
    (le : σ.store.next ≤ σ₁.store.next)
    (hs : ∀ n < σ.store.next, (σ₁.store.get n).selector = (σ.store.get n).selector) :
    σ₁.Shows d where
  made := fun n hn => Nat.lt_of_lt_of_le (h.made n hn) le
  label := fun hlog => by
    obtain ⟨l, hd⟩ := h.label (hl ▸ hlog)
    have agree : Agree (d.label σ₁.appearance) (d.label σ.appearance) :=
      Datum.label_agree_of_bare rfl fun n hn =>
        Store.label_agree (fun m hm => congrArg Datum.bare (hs m hm)) (h.made n hn)
    rcases agree.cases_on with ⟨e, -, he⟩ | ⟨l₁, _, hl₁, -⟩
    · cases hd.symm.trans he
    · exact ⟨l₁, hl₁⟩

/-- A host that is no rule set can be shown. -/
theorem HasHost.shows (h : σ.HasHost host i) (hn : ∀ n, host ≠ .node n) : σ.Shows host := by
  have ha := h.asHost
  cases host with
  | node n => exact absurd rfl (hn n)
  | kind | naming | host | generator =>
    exact ⟨fun n hn => (nomatch List.mem_singleton.1 hn), fun _ => ⟨_, rfl⟩⟩
  | _ => cases ha

/-- A rule set for no text has these options, and a text but no block of its own. All rule sets have
text only if their selectors are texts. -/
structure Holds (σ : Session) (r : NodeId) (o : OptionSet) (text : String) : Prop where
  lt : r < σ.store.next
  selector : (σ.store.get r).selector = .text ""
  options : σ.store.optionsOf r = o
  blockless : σ.Blockless r
  css : σ.css r = .ok text
  written : ∀ x < σ.store.next, (σ.store.get x).Written

theorem Holds.congr (h : σ.Holds r o text) (hs : σ₁.store = σ.store) (hh : σ₁.hosts = σ.hosts) :
    σ₁.Holds r o text where
  lt := hs ▸ h.lt
  selector := hs ▸ h.selector
  options := hs ▸ h.options
  blockless := by
    unfold Blockless appearance hostName
    rw [hs, hh]
    exact h.blockless
  css := by
    rw [← h.css]
    unfold Session.css hostName
    rw [hs, hh]
  written := hs ▸ h.written

/-- One that was just made has no text yet. -/
theorem Gets.holds (h : σ.Gets L (.text "") o)
    (hw : ∀ x < σ.store.next, (σ.store.get x).Written) : L.Holds σ.store.next o "" := by
  have written : ∀ x < L.store.next, (L.store.get x).Written := fun x hx hne => by
    rcases Nat.lt_or_eq_of_le (Nat.le_of_lt_succ (h.next ▸ hx)) with hx | rfl
    · rw [h.older x hx] at hne ⊢
      exact hw x hx hne
    · exact absurd h.blank.text hne
  have blockless : L.Blockless σ.store.next := RuleSet.block?_eq_none_iff.2
    ⟨h.blank.text, fun _ hne => absurd (congrArg Table.entries h.blank.scope) hne⟩
  have hp : L.store.forest.preorder σ.store.next = [σ.store.next] := by
    rw [Forest.preorder_eq,
      show (L.store.forest.get σ.store.next).children = _ from h.blank.children]
    rfl
  refine ⟨h.lt, h.selector_eq, h.options, blockless, ?_, written⟩
  have hb : L.store.blocks L.hostName σ.store.next = .ok [] := by
    rw [Store.blocks_eq (fun x hx => ?_) _ L.appearance, hp, Store.blocksOf_cons_of_none blockless]
    · rfl
    · rw [hp] at hx
      exact List.mem_singleton.1 hx ▸ written _ h.lt
  unfold Session.css Store.css
  rw [hb]
  rfl

/-! ### What is rendered -/

/-- Options that can be merged are none of the other arguments of a rendering. -/
theorem no_arguments (hm : OptionSet.merge (optionsDatum (.ofList options)) = .ok o) :
    hasAny (.ofList options) [hostOption, "generate", "self"] = false ∧
      (Table.ofList options).contains "selector" = false := by
  have not_known {name : String} (hn : name ∉ OptionSet.knownNames) :
      (Table.ofList options).contains name = false := OptionSet.not_contains_of_merge hm hn
  refine ⟨?_, not_known (by decide)⟩
  unfold hasAny
  rw [List.any_cons, List.any_cons, List.any_cons, not_known (by decide), not_known (by decide),
    not_known (by decide)]
  rfl

variable (hh : σ.HasHost host i) (shown : σ.Shows host)
  (hm : OptionSet.merge (optionsDatum (.ofList options)) = .ok o)
include hh shown hm

/-- For a host without a style sheet one is built. -/
theorem obtain_new (hf : ∀ e ∈ σ.filedEntries id, σ.equal e.host i = false) (g : Generator)
    (out : Output) : ∃ L, σ.obtain id host (.generator g) (.ofList options) out =
      .enter L (.register id i σ.store.next out) (σ.bodyOf g) ∧ σ.Gets L (.text "") o := by
  obtain ⟨hany, hsel⟩ := no_arguments hm
  obtain ⟨σ₁, hr⟩ := shown.record .buildingSheet
  have ha : σ.Alters σ₁ := @Alters.of_record σ σ₁ σ.store σ.stamps _ _ hr
  have hs : σ₁.store = σ.store := store_of_record hr
  have hcallable : σ.callable (.generator g) = true := rfl
  have ho : σ.obtain id host (.generator g) (.ofList options) out =
      σ₁.buildRoot (.text "") host (.generator g) (.ofList options) (.register id i · out) := by
    unfold obtain
    rw [hany, hcallable]
    simp only [hh.asHost, sheet?_eq_none hf, hr, hsel]
    rfl
  rcases σ₁.buildRoot_text "" host g (.ofList options) (.register id i · out) with
    ⟨e, -, he, -⟩ | ⟨o', L, ho', hb, hg, -⟩
  · cases hm.symm.trans he
  · cases hm.symm.trans ho'
    rw [hs, ha.bodyOf] at hb
    exact ⟨L, ho.trans hb, hg.of_alters ha hs⟩

/-- A style sheet that is kept for a host and is not emptied on reset is filled again. -/
theorem obtain_again (hf : σ.Files name id i r) (keeps : σ.store.clearsOnReset r = false)
    (hsel : (σ.store.get r).selector = .text t) (g : Generator) (out : Output) :
    ∃ L, σ.obtain id host (.generator g) (.ofList options) out =
      .enter L (.reset r (some id) out) (σ.bodyOf g) ∧ σ.Alters L ∧ L.store = σ.store := by
  obtain ⟨hany, -⟩ := no_arguments hm
  obtain ⟨σ₁, hr⟩ := shown.record .resettingSheet
  have ha : σ.Alters σ₁ := @Alters.of_record σ σ₁ σ.store σ.stamps _ _ hr
  have hs : σ₁.store = σ.store := store_of_record hr
  have hclear : σ₁.store.clearForReset r = σ.store := by
    unfold Store.clearForReset
    rw [hs, keeps]
    rfl
  obtain ⟨L, hL⟩ := record_of_label (σ := { σ₁ with store := σ₁.store.clearForReset r }) .resetting
    (d := ((σ₁.store.clearForReset r).get r).selector)
    ⟨_, by rw [hclear, hsel]; exact Datum.label_text _ t⟩
  have hL' : σ₁.Alters L := @Alters.of_record σ₁ L _ σ₁.stamps _ _ hL
  have hcallable : σ.callable (.generator g) = true := rfl
  refine ⟨L, ?_, ha.trans hL', (store_of_record hL).trans hclear⟩
  rw [obtain_of_cached hh.asHost (hf.sheet? hh), hany, hcallable]
  simp only [hr]
  have hcallable₁ : σ₁.callable (.generator g) = true := rfl
  refine (reset_of_ok hcallable₁ hL _ _).trans ?_
  show Start.enter L _ (L.bodyOf g) = _
  rw [hL'.bodyOf, ha.bodyOf]

end Session

/-- A rule set that is filled by a body has another text behind the one before, if the one that is
filled by the same body elsewhere has that text, and no block of its own. -/
theorem Ground.Twins.holds {γ : Ground} {closed : Prop} {σ σ' : Session} {o : OptionSet}
    {text t : String} (h : γ.Twins σ σ') (hf : γ.Fit closed) (hl : γ.lead = "")
    (hb : γ.left.Holds γ.root o text) (blockless : σ'.Blockless γ.root')
    (css : σ'.css γ.root' = .ok t) : σ.Holds γ.root o (text ++ t) := by
  have hblockless : σ.Blockless γ.root :=
    h.store.block?_root hf.selector hf.options hb.blockless blockless σ.appearance
  have hcss := h.store.css_root rfl hl hf.selector hf.options hb.written hb.blockless hblockless
  have hopt := (h.store.optionsOf .root).1
  rw [Pairing.image_root] at hopt
  exact {
    lt := Nat.lt_of_lt_of_le γ.root_lt h.store.next_le
    selector := h.store.root.selector.trans hb.selector
    options := hopt.trans hb.options
    blockless := hblockless
    css := hcss.trans (by
      rw [show γ.left.css γ.pairing.root = _ from hb.css, show σ'.css γ.pairing.root' = _ from css]
      rfl)
    written := h.store.written_all hf.selector hb.written }

namespace Machine

/-- By a self-contained generator a rule set for no text can be built in a state, without any
statement failing. It has this text, and no block of its own. -/
structure Gives (m : Machine) (options : List (String × Datum)) (o : OptionSet) (g : Generator)
    (t : String) : Prop where
  knows : m.session.Knows g
  contained : m.session.SelfContained o.className (m.session.bodyOf g)
  built : ∃ tag n m', m.Cleanly tag (.build (.text "") (.generator g) none options)
    (.ok (.value (.node n))) m' ∧ m'.session.Blockless n ∧ m'.session.css n = .ok t

/-- Renderings for a host by some generators, one after the other and without any statement failing.
Each gives the text before with another one behind it. Each begins where the one before was
completed. -/
inductive Renders (tag : Tag) (name : String) (host : Datum) (options : List (String × Datum)) :
    String → List (Generator × String) → Machine → Machine → Prop
  | none (text : String) (m : Machine) : Renders tag name host options text [] m m
  | more {text t : String} {g : Generator} {rest : List (Generator × String)} {m m₁ m₂ : Machine}
    (first : m.Cleanly tag (.render name host (.generator g) options) (.ok (.text (text ++ t))) m₁)
    (later : Renders tag name host options (text ++ t) rest { m₁ with settled := .none } m₂) :
    Renders tag name host options text ((g, t) :: rest) m m₂

variable {m₀ m : Machine} {options : List (String × Datum)} {o : OptionSet} {g : Generator}
  {text t : String} {r : NodeId} {purpose : Purpose} {body : List Stmt} {L : Session}

/-- A statement fills a rule set by a generator that gives a text. -/
theorem Gives.fills (h : m₀.Gives options o g t) (settled₀ : m₀.settled = none)
    (merged : OptionSet.merge (Session.optionsDatum (.ofList options)) = .ok o)
    (keeps : o.clearOnReset.truthy = false) (equips : m₀.session.Equips L)
    (holds : L.Holds r o text) (fills : purpose.Fills r) (settled : m.settled = none)
    {action : Action Datum (List Stmt)}
    (hb : m.session.begin action = .enter L purpose (m₀.session.bodyOf g)) (tag : Tag) :
    ∃ res m₁ σ σ₁, m.Cleanly tag action res m₁ ∧ L.Extends σ ∧ L.store.next ≤ σ.store.next ∧
      (∀ n < L.store.next, (σ.store.get n).selector = (L.store.get n).selector) ∧
      σ.Holds r o (text ++ t) ∧ Ground.Ended σ purpose tag m.session.calls m₁ σ₁ res := by
  obtain ⟨bodies, closes, body⟩ := h.contained
  obtain ⟨tag', n, m', hp, blockless, css⟩ := h.built
  obtain ⟨R, hr, hR, parent⟩ := m₀.session.fill_planted "" none o
    (.build m₀.session.store.next .node) g
  have hc : L.Compatible R o.className bodies :=
    (Session.Alters.refl L).compatible hR.alters (equips.compatible closes)
  have hclears : L.store.clearsOnReset r = false := by
    unfold Store.clearsOnReset
    rw [holds.options]
    exact keeps
  have hsel : (L.store.get r).selector.bare = (Datum.led "" (.text "")).bare := by
    rw [holds.selector, Datum.led_empty]
  have hf : (Ground.ofNew L R holds.lt hR.lt leading_empty fills (.build .node) tag tag'
      m.session.calls m₀.session.calls bodies).Fit False :=
    hR.fit_of holds.lt hc holds.options hsel (fun m hm => nomatch hm)
      (.inr ⟨not_false, hclears⟩) leading_empty fills (.build .node)
  obtain ⟨res, m₁, σ, σ₁, hn, hq, twins, left⟩ := cleanly_of_built hf hb
    ((Session.begin_build merged _ g).trans hr) parent body settled settled₀ hp
  cases hn
  refine ⟨res, m₁, σ, σ₁, hq, twins.left, twins.store.next_le, fun n hn => ?_,
    twins.holds hf rfl holds blockless css, left⟩
  by_cases e : n = r
  · subst e
    exact twins.store.root.selector
  · exact congrArg RuleSet.selector (twins.store.older n hn e)

end Machine

/-- In the registry of that name a host has a style sheet with a text. -/
structure Session.Serves (σ : Session) (name : String) (id : RegistryId) (host : Datum)
    (i : Identity) (r : NodeId) (o : OptionSet) (text : String) : Prop where
  shows : σ.Shows host
  host : σ.HasHost host i
  files : σ.Files name id i r
  holds : σ.Holds r o text

namespace Machine

section Renders

variable {m₀ m : Machine} {options : List (String × Datum)} {o : OptionSet} {g : Generator}
  {text t : String} {name : String} {id : RegistryId} {host : Datum} {i : Identity} {r : NodeId}
  (settled₀ : m₀.settled = none)
  (merged : OptionSet.merge (Session.optionsDatum (.ofList options)) = .ok o)
  (keeps : o.clearOnReset.truthy = false)
include settled₀ merged keeps

/-- The first rendering for a host builds its style sheet. -/
theorem Gives.renders_new (h : m₀.Gives options o g t) (hh : m₀.session.HasHost host i)
    (shown : m₀.session.Shows host)
    (lt : (m₀.session.withRegistry name).2 < (m₀.session.withRegistry name).1.registries.size)
    (hf : ∀ e ∈ m₀.session.filedEntries (m₀.session.withRegistry name).2,
      m₀.session.equal e.host i = false)
    (hw : ∀ x < m₀.session.store.next, (m₀.session.store.get x).Written) (tag : Tag) :
    ∃ m₁, m₀.Cleanly tag (.render name host (.generator g) options) (.ok (.text ("" ++ t))) m₁ ∧
      m₀.session.Equips m₁.session ∧ m₁.session.Serves name (m₀.session.withRegistry name).2 host i
        m₀.session.store.next o ("" ++ t) := by
  have hbegin : m₀.session.begin (.render name host (.generator g) options) =
      (m₀.session.withRegistry name).1.obtain (m₀.session.withRegistry name).2 host (.generator g)
        (.ofList options) .css := rfl
  have hfiled := m₀.session.filedEntries_withRegistry name (m₀.session.withRegistry name).2
  obtain ⟨registries, registryNames, hσ, hname⟩ := m₀.session.withRegistry_eq name
  generalize (m₀.session.withRegistry name).2 = id at *
  rw [hσ] at hbegin hfiled lt
  let σ₀ : Session := { m₀.session with registries, registryNames }
  have hh₀ : σ₀.HasHost host i := hh.congr rfl rfl
  have shown₀ : σ₀.Shows host := ⟨shown.made, shown.label⟩
  have hf₀ : ∀ e ∈ σ₀.filedEntries id, σ₀.equal e.host i = false := fun e he => hf e (hfiled ▸ he)
  obtain ⟨L, hb, hL⟩ := Session.obtain_new hh₀ shown₀ merged hf₀ g .css
  have equips : m₀.session.Equips L :=
    (Session.Equips.of_registries m₀.session registries registryNames).trans
      (.of_extends hL.alters.extends_of)
  obtain ⟨hk, hbody⟩ := (Session.Equips.of_registries m₀.session registries registryNames).bodies g
    h.knows
  obtain ⟨res, m₁, σ, σ₁, hp, hext, hle, hsel, hholds, left⟩ := h.fills settled₀ merged keeps equips
    (hL.holds hw) (.register id i .css) settled₀ (hbegin.trans (hb.trans (by rw [hbody]))) tag
  cases left.finish
  have hext₀ : σ₀.Extends σ := hL.alters.extends_of.trans hext
  have hres : (σ.putSheet id i m₀.session.store.next).output m₀.session.store.next .css =
      .ok (.text ("" ++ t)) := by
    show (σ.css _).map Result.text = _
    rw [hholds.css]
    rfl
  rw [hres] at hp
  have files : (σ.putSheet id i m₀.session.store.next).Files name id i m₀.session.store.next := by
    obtain ⟨hr, hn⟩ := hext₀.registries
    refine Session.files_putSheet (hn ▸ hname) (hr ▸ lt) (fun e he => ?_) _
    unfold Session.filedEntries at he
    rw [hr] at he
    unfold Session.equal Session.standing
    rw [hext₀.hosts]
    exact hf₀ e he
  refine ⟨m₁, hp, ?_, ?_⟩
  · rw [left.session]
    refine equips.trans ((Session.Equips.of_extends hext).trans ?_)
    exact (Session.Equips.of_registries σ _ _).trans (.of_extends (.of_kept rfl))
  · have kept : σ₀.Extends { σ with calls := m₀.session.calls } := hext₀.trans (.of_kept rfl)
    rw [left.session]
    exact {
      host := hh₀.congr kept.hosts (kept.roots rfl)
      shows := shown₀.later kept.log (Nat.le_trans (Nat.le_of_lt hL.lt) hle) fun n hn =>
        (hsel n (Nat.lt_trans hn hL.lt)).trans (congrArg RuleSet.selector (hL.older n hn))
      files := files.congr rfl rfl rfl
      holds := hholds.congr rfl rfl }

/-- Each later rendering fills the style sheet again. -/
theorem Gives.renders_again (h : m₀.Gives options o g t) (equips : m₀.session.Equips m.session)
    (settled : m.settled = none) (hs : m.session.Serves name id host i r o text) (tag : Tag) :
    ∃ m₁, m.Cleanly tag (.render name host (.generator g) options) (.ok (.text (text ++ t))) m₁ ∧
      m₀.session.Equips m₁.session ∧ m₁.session.Serves name id host i r o (text ++ t) := by
  have hbegin : m.session.begin (.render name host (.generator g) options) =
      (m.session.withRegistry name).1.obtain (m.session.withRegistry name).2 host (.generator g)
        (.ofList options) .css := rfl
  rw [hs.files.withRegistry] at hbegin
  have hclears : m.session.store.clearsOnReset r = false := by
    unfold Store.clearsOnReset
    rw [hs.holds.options]
    exact keeps
  obtain ⟨L, hb, hL, hstore⟩ := Session.obtain_again hs.host hs.shows merged hs.files hclears
    hs.holds.selector g .css
  obtain ⟨hk, hbody⟩ := equips.bodies g h.knows
  obtain ⟨res, m₁, σ, σ₁, hp, hext, hle, hsel, hholds, left⟩ := h.fills settled₀ merged keeps
    (equips.trans (.of_extends hL.extends_of)) (hs.holds.congr hstore hL.extends_of.hosts)
    (.reset (some id) .css) settled (hbegin.trans (hbody ▸ hb)) tag
  cases left.finish
  have hres : σ.output r .css = .ok (.text (text ++ t)) := by
    show (σ.css r).map Result.text = _
    rw [hholds.css]
    rfl
  rw [hres] at hp
  have kept : m.session.Extends { σ with calls := m.session.calls } :=
    hL.extends_of.trans (hext.trans (.of_kept rfl))
  refine ⟨m₁, hp, ?_, ?_⟩
  · rw [left.session]
    exact equips.trans (.of_extends kept)
  · rw [left.session]
    exact {
      host := hs.host.congr kept.hosts (kept.roots rfl)
      shows := hs.shows.later kept.log (hstore ▸ hle) fun n hn => hstore ▸ hsel n (hstore ▸ hn)
      files := hs.files.congr kept.registries.1 kept.registries.2 kept.hosts
      holds := hholds.congr rfl rfl }

/-- Once a host has a style sheet, each rendering prepares the next one. -/
theorem renders_of_serves (equips : m₀.session.Equips m.session) (settled : m.settled = none)
    (hs : m.session.Serves name id host i r o text) (gs : List (Generator × String))
    (gives : ∀ p ∈ gs, m₀.Gives options o p.1 p.2) (tag : Tag) :
    ∃ m₂, m.Renders tag name host options text gs m₂ := by
  induction gs generalizing m text with
  | nil => exact ⟨m, .none text m⟩
  | cons p rest ih =>
    obtain ⟨g, t⟩ := p
    obtain ⟨m₁, hp, hequips, hserves⟩ := (gives _ List.mem_cons_self).renders_again settled₀ merged
      keeps equips settled hs tag
    obtain ⟨m₂, hm₂⟩ := ih (m := { m₁ with settled := none }) hequips rfl
      ⟨hserves.shows, hserves.host, hserves.files, hserves.holds⟩
      fun p hp => gives p (List.mem_cons_of_mem _ hp)
    exact ⟨m₂, .more hp hm₂⟩

/-- All renderings for a host without a style sheet are completed without a failure. -/
theorem renders_of_new (hh : m₀.session.HasHost host i) (shown : m₀.session.Shows host)
    (lt : (m₀.session.withRegistry name).2 < (m₀.session.withRegistry name).1.registries.size)
    (hf : ∀ e ∈ m₀.session.filedEntries (m₀.session.withRegistry name).2,
      m₀.session.equal e.host i = false)
    (hw : ∀ x < m₀.session.store.next, (m₀.session.store.get x).Written)
    (gs : List (Generator × String)) (gives : ∀ p ∈ gs, m₀.Gives options o p.1 p.2) (tag : Tag) :
    ∃ m₂, m₀.Renders tag name host options "" gs m₂ := by
  cases gs with
  | nil => exact ⟨m₀, .none "" m₀⟩
  | cons p rest =>
    obtain ⟨g, t⟩ := p
    obtain ⟨m₁, hp, hequips, hserves⟩ := (gives _ List.mem_cons_self).renders_new settled₀ merged
      keeps hh shown lt hf hw tag
    obtain ⟨m₂, hm₂⟩ := renders_of_serves (m := { m₁ with settled := none }) settled₀ merged keeps
      hequips rfl ⟨hserves.shows, hserves.host, hserves.files, hserves.holds⟩ rest
      (fun p hp => gives p (List.mem_cons_of_mem _ hp)) tag
    exact ⟨m₂, .more hp hm₂⟩

end Renders

/-- What a state accumulates. -/
structure Accumulates (m : Machine) : Prop where
  /-- A rule set that is not emptied on reset is reset by a self-contained generator. If one with
  the same selector and equal options can be built by it without any statement failing, then the
  rule set gains what that one holds, without any statement failing. -/
  resets : ∀ (t : Target) (r : NodeId) (g : Generator) (options : List (String × Datum)),
    m.session.target t = .node r → m.session.store.clearsOnReset r = false →
    m.session.SelfContained (m.session.store.optionsOf r).className (m.session.bodyOf g) →
    OptionSet.merge (Session.optionsDatum (.ofList options)) = .ok (m.session.store.optionsOf r) →
    ∀ tag' a m₁', m.Cleanly tag'
      (.build (m.session.store.get r).selector (.generator g) none options) (.ok a) m₁' →
    ∀ tag, ∃ n m₁, a = .value (.node n) ∧
      m.Cleanly tag (.reset t (.generator g)) (.ok (.value (.node r))) m₁ ∧ m.Adds m₁ r m₁' n
  /-- For a host without a style sheet, which can be shown, there are successive renderings by
  self-contained generators, with options by which nothing is emptied on reset. If rule sets for no
  text can be built by these with equal options, without any statement failing, that have no blocks
  of their own, then each rendering has the text of another one behind the text before, without any
  statement failing. -/
  renders : ∀ (name : String) (host : Datum) (i : Identity) (options : List (String × Datum))
    (o : OptionSet), m.session.HasHost host i → m.session.Shows host →
    (∀ e ∈ m.session.filedEntries (m.session.withRegistry name).2,
      m.session.equal e.host i = false) →
    OptionSet.merge (Session.optionsDatum (.ofList options)) = .ok o →
    o.clearOnReset.truthy = false →
    ∀ gs : List (Generator × String), (∀ p ∈ gs, m.Gives options o p.1 p.2) →
    ∀ tag, ∃ m₂, m.Renders tag name host options "" gs m₂

/-- Every state of a script accumulates. -/
theorem accumulates (s : Script) (k : Nat) (settled : (run k (load s)).settled = none) :
    (run k (load s)).Accumulates where
  resets := fun _ _ _ _ target keeps contained merged _ _ _ fresh =>
    resets_adding s k settled target keeps contained merged fresh
  renders := fun name _ _ _ _ hh shown hf merged keeps gs gives =>
    renders_of_new settled merged keeps hh shown ((ranged s k).named.lt_withRegistry name) hf
      (fun x _ hne => (unwritten s k x hne).imp fun _ hx => hx.1) gs gives

end Machine

/-- The rule set that is given, if it is one. -/
def Result.given? : Result → Option NodeId
  | .value (.node n) => some n
  | _ => none

theorem Result.eq_node {r : Except Error Result} {n : NodeId}
    (h : (r.toOption.bind given? == some n) = true) : r = .ok (.value (.node n)) := by
  unfold given? at h
  cases r with
  | error e => cases h
  | ok a =>
    simp only [Except.toOption, Option.bind_some] at h
    split at h
    · cases beq_iff_eq.1 h
      rfl
    · cases h

theorem ok_of_toOption {α : Type} {x : Except Error α} {a : α} (h : x.toOption = some a) :
    x = .ok a := by
  cases x with
  | error e => cases h
  | ok b => exact congrArg Except.ok (Option.some.inj h)

/-- A script that makes a host and builds a tree that is kept on reset, with text beneath it only.
-/
def Script.keeping : Script where
  steps := [
    .mk (.makeHost "button" .plain) none none,
    .mk (.build (.text "div") (.named "nest") none []) (some "r") none]
  generators := .ofList [("nest", Body.nesting)]
  logs := true

theorem Machine.accumulates_keeping :
    (∃ n m₁ m₁', (run 11 (load .keeping)).Cleanly ⟨[], none, none⟩
        (.reset (.handle "r") (.generator (.named "nest"))) (.ok (.value (.node 0))) m₁ ∧
      ((run 11 (load .keeping)).session.store.get 0).children = [1] ∧
      (run 11 (load .keeping)).Adds m₁ 0 m₁' n) ∧
    ∃ m₂, (run 11 (load .keeping)).Renders ⟨[], none, none⟩ defaultRegistry (.host 0) [] ""
      [(.named "nest", " a \x7b\nz;\x7d\n"), (.named "nest", " a \x7b\nz;\x7d\n")] m₂ := by
  have settled : (run 11 (load .keeping)).settled = none :=
    Option.isNone_iff_eq_none.1 (by decide +kernel)
  have hbody : (run 11 (load .keeping)).session.bodyOf (.named "nest") = Body.nesting :=
    bodyOf_named .keeping 11 "nest"
  have hextra : ((run 11 (load .keeping)).session.store.optionsOf 0).extra = .empty :=
    Table.ext (List.isEmpty_iff.1 (by decide +kernel))
  obtain ⟨a, hfresh⟩ := cleanly_of_run (run 11 (load .keeping)) ⟨[], none, none⟩
    (.build ((run 11 (load .keeping)).session.store.get 0).selector (.generator (.named "nest")) none
      ((run 11 (load .keeping)).session.store.optionsOf 0).known) 6 (by decide +kernel)
    (by decide +kernel) (by decide +kernel) (by decide +kernel)
  obtain ⟨n, m₁, -, hp, hadds⟩ := (accumulates .keeping 11 settled).resets (.handle "r") 0
    (.named "nest") _ (Session.target_handle (by decide +kernel)) (by decide +kernel)
    (hbody ▸ Session.selfContained_nesting _ _) (OptionSet.merge_known hextra) _ a _ hfresh
    ⟨[], none, none⟩
  have gives : (run 11 (load .keeping)).Gives [] .default (.named "nest") " a \x7b\nz;\x7d\n" := by
    obtain ⟨res, hres, hp⟩ := cleanly_of_run_of_settled (run 11 (load .keeping)) ⟨[], none, none⟩
      (.build (.text "") (.generator (.named "nest")) none []) 6
      (fun r => r.toOption.bind Result.given? == some 2) (by decide +kernel) (by decide +kernel)
      (by decide +kernel) (by decide +kernel)
    rw [Result.eq_node hres] at hp
    refine ⟨trivial, hbody ▸ Session.selfContained_nesting _ _, _, 2, _, hp, ?_, ?_⟩
    · exact ok_of_toOption (by decide +kernel)
    · exact ok_of_toOption (by decide +kernel)
  refine ⟨⟨n, m₁, _, hp, by decide +kernel, hadds⟩, ?_⟩
  have host : (run 11 (load .keeping)).session.HasHost (.host 0) (.host 0) :=
    ⟨ok_of_toOption (by decide +kernel), by decide +kernel, .inr (by decide +kernel)⟩
  exact (accumulates .keeping 11 settled).renders defaultRegistry (.host 0) (.host 0) [] .default
    host (host.shows nofun) (by decide +kernel) rfl rfl _ (by simp [gives]) _

end RuleTree
