import RuleTree.Proofs.Options.Merge
import RuleTree.Proofs.Rebuilding.Fresh
import RuleTree.Proofs.Rebuilding.Shapes

/-!
# Two rule sets that were just made

* `Session.Gets`: a session with one more rule set, and `Session.gets_plant`, `Session.gets_sprout`:
  a root, and a rule set under another one;
* `Session.fill_planted`, `Session.fill_sprouted`: they are filled if their selectors are texts;
* `Session.buildRoot_text`, `Session.build_text`: a root whose selector is a text is filled, unless the
  options are wrong;
* `Ground.ofNew`, `Session.Gets.fit_of`, `Session.Gets.fit`: a rule set that was just made, and
  another one of another session, are filled by the same body;
* `Machine.cleanly_of_built`: both statements are completed without a failure if the build is;
* `Ground.Twins.shape`, `Ground.Twins.blocks`: they come to have the same tree and the same blocks,
  but for the text before selectors;
* `Ground.Twins.sameTree`: and the same tree altogether, if there is no such text.
-/

namespace RuleTree

/-- Having one more rule set, with a selector and options, that holds nothing yet. -/
structure Session.Gets (σ σ₁ : Session) (selector : Datum) (o : OptionSet) : Prop where
  alters : σ.Alters σ₁
  next : σ₁.store.next = σ.store.next + 1
  fresh : ∃ parent host options,
    σ₁.store.get σ.store.next = .fresh selector parent host options
  options : σ₁.store.optionsOf σ.store.next = o
  older : ∀ n < σ.store.next, σ₁.store.get n = σ.store.get n

/-- Why options cannot be merged has nothing to do with selectors. -/
theorem OptionSet.plain_of_merge {options : Table Datum} {e : Error}
    (h : merge (Session.optionsDatum options) = .error e) : e.Plain := by
  rw [merge_optionsDatum] at h
  split at h
  · cases h
  · cases h
    exact nofun

namespace Session

variable {σ σ₁ : Session} {selector : Datum} {host : Option Datum} {o : OptionSet} {event : LogEvent}
  {d : Datum} {stamps : Stamp}

theorem gets_plant
    (h : { σ with store := σ.store.plant selector host o, stamps }.record event d = .ok σ₁) :
    σ.Gets σ₁ selector o := by
  have hs : σ₁.store = σ.store.plant selector host o := store_of_record h
  have hget : σ₁.store.get σ.store.next =
      .fresh selector none host σ.store.options.size := by
    rw [hs, Store.get_plant, if_pos rfl]
  exact {
    alters := .of_record h
    next := by rw [hs, Store.next_plant]
    fresh := ⟨_, _, _, hget⟩
    options := by
      unfold Store.optionsOf
      rw [hget, hs]
      show (σ.store.options.push o)[σ.store.options.size]?.getD default = o
      rw [Array.getElem?_push_size]
      rfl
    older := fun n hn => by rw [hs, Store.get_plant, if_neg (Nat.ne_of_lt hn)] }

theorem gets_sprout {p : NodeId}
    (h : { σ with store := σ.store.sprout p selector host, stamps }.record event d = .ok σ₁) :
    σ.Gets σ₁ selector (σ.store.optionsOf p) := by
  have hs : σ₁.store = σ.store.sprout p selector host := store_of_record h
  have hget : σ₁.store.get σ.store.next = .fresh selector ((some p).filter (· < σ.store.next)) host
      (σ.store.get p).options := by
    rw [hs, Store.get_sprout, if_pos rfl]
  exact {
    alters := .of_record h
    next := by rw [hs, Store.next_sprout]
    fresh := ⟨_, _, _, hget⟩
    options := by
      unfold Store.optionsOf
      rw [hget, hs]
      rfl
    older := fun n hn => by rw [hs, Store.get_sprout, if_neg (Nat.ne_of_lt hn)] }

/-- What was only recorded before makes no difference. -/
theorem Gets.of_alters {σ₂ : Session} (h : σ₁.Gets σ₂ selector o) (ha : σ.Alters σ₁)
    (hs : σ₁.store = σ.store) : σ.Gets σ₂ selector o where
  alters := ha.trans h.alters
  next := hs ▸ h.next
  fresh := hs ▸ h.fresh
  options := hs ▸ h.options
  older := hs ▸ h.older

/-- What can be shown can be recorded. -/
theorem record_of_label (event : LogEvent) (h : ∃ l, d.label σ.appearance = .ok l) :
    ∃ σ₁, σ.record event d = .ok σ₁ := by
  obtain ⟨l, h⟩ := h
  unfold record
  cases σ.log with
  | none => exact ⟨_, rfl⟩
  | some records =>
    simp only
    rw [h]
    exact ⟨_, rfl⟩

/-- A root whose selector is a text is filled. -/
theorem fill_planted (σ : Session) (t : String) (host : Option Datum) (o : OptionSet)
    (purpose : Purpose) (g : Generator) :
    ∃ σ₁, σ.fill (σ.store.plant (.text t) host o) σ.store.next purpose (.generator g) =
      .enter σ₁ purpose (σ.bodyOf g) ∧ σ.Gets σ₁ (.text t) o ∧
        (σ₁.store.get σ.store.next).parent = none := by
  have hget : (σ.store.plant (.text t) host o).get σ.store.next =
      .fresh (.text t) none host σ.store.options.size := by
    rw [Store.get_plant, if_pos rfl]
  obtain ⟨σ₁, hr⟩ := record_of_label
    (σ := { σ with store := σ.store.plant (.text t) host o }) .generating
    ⟨_, Datum.label_text _ t⟩
  have hg : σ.Gets σ₁ (.text t) o := gets_plant hr
  have hr' : ({ σ with store := σ.store.plant (.text t) host o } : Session).record .generating
      ((σ.store.plant (.text t) host o).get σ.store.next).selector = .ok σ₁ := by
    rw [hget]
    exact hr
  refine ⟨σ₁, (fill_of_ok hr' _ _).trans ?_, hg, ?_⟩
  · show Start.enter σ₁ _ (σ₁.bodyOf g) = _
    rw [hg.alters.bodyOf]
  · rw [store_of_record hr, hget]
    rfl

/-- A rule set under another one is filled, with the options of its parent. -/
theorem fill_sprouted (σ : Session) (t : String) {p : NodeId} (hp : p < σ.store.next)
    (stamps : Stamp)
    (purpose : Purpose) (g : Generator) :
    ∃ σ₁, fill { σ with stamps } (σ.store.sprout p (.text t) none) σ.store.next purpose
      (.generator g) = .enter σ₁ purpose (σ.bodyOf g) ∧
        σ.Gets σ₁ (.text t) (σ.store.optionsOf p) ∧
        σ₁.store.get σ.store.next = .fresh (.text t) (some p) none (σ.store.get p).options ∧
        σ₁.store.options = σ.store.options := by
  have hget : (σ.store.sprout p (.text t) none).get σ.store.next =
      .fresh (.text t) (some p) none (σ.store.get p).options := by
    rw [Store.get_sprout, if_pos rfl, Option.filter_some, if_pos]
    simpa using hp
  obtain ⟨σ₁, hr⟩ := record_of_label
    (σ := { σ with store := σ.store.sprout p (.text t) none, stamps }) .generating
    ⟨_, Datum.label_text _ t⟩
  have hg : σ.Gets σ₁ (.text t) (σ.store.optionsOf p) := gets_sprout hr
  have hr' : ({ σ with store := σ.store.sprout p (.text t) none, stamps } : Session).record
      .generating ((σ.store.sprout p (.text t) none).get σ.store.next).selector = .ok σ₁ := by
    rw [hget]
    exact hr
  have hs : σ₁.store = σ.store.sprout p (.text t) none := store_of_record hr
  refine ⟨σ₁, (fill_of_ok (σ := { σ with stamps }) hr' _ _).trans ?_, hg, ?_, by rw [hs]; rfl⟩
  · show Start.enter σ₁ _ (σ₁.bodyOf g) = _
    rw [hg.alters.bodyOf]
  · rw [hs, hget]

/-- A root whose selector is a text. Only the options can be wrong. -/
theorem buildRoot_text (σ : Session) (t : String) (host : Datum) (g : Generator)
    (options : Table Datum) (purpose : NodeId → Purpose) :
    (∃ e, e.Plain ∧ OptionSet.merge (optionsDatum options) = .error e ∧
      σ.buildRoot (.text t) host (.generator g) options purpose = .refuse σ e) ∨
    ∃ o σ₁, OptionSet.merge (optionsDatum options) = .ok o ∧
      σ.buildRoot (.text t) host (.generator g) options purpose =
        .enter σ₁ (purpose σ.store.next) (σ.bodyOf g) ∧ σ.Gets σ₁ (.text t) o ∧
        (σ₁.store.get σ.store.next).parent = none := by
  have hcallable : σ.callable (.generator g) = true := rfl
  unfold buildRoot
  rw [if_pos hcallable]
  cases hm : OptionSet.merge (optionsDatum options) with
  | error e => exact .inl ⟨e, OptionSet.plain_of_merge hm, rfl, rfl⟩
  | ok o =>
    obtain ⟨σ₁, hb, hg, hparent⟩ := σ.fill_planted t (givenHost host) o (purpose σ.store.next) g
    exact .inr ⟨o, σ₁, rfl, hb, hg, hparent⟩

/-- A tree whose selector is a text. Whether it is refused depends on the options only. -/
theorem build_text (host : Option Datum) (options : Table Datum) :
    (∃ e, e.Plain ∧ ∀ (σ : Session) t g out,
      σ.build (.text t) (.generator g) host options out = .refuse σ e) ∨
    ∃ o, OptionSet.merge (optionsDatum (options.erase hostOption)) = .ok o ∧
      ∀ (σ : Session) t g out, ∃ σ₁, σ.build (.text t) (.generator g) host options out =
        .enter σ₁ (.build σ.store.next out) (σ.bodyOf g) ∧ σ.Gets σ₁ (.text t) o ∧
        (σ₁.store.get σ.store.next).parent = none := by
  unfold build
  split
  · exact .inl ⟨.badArguments, nofun, fun _ _ _ _ => rfl⟩
  split
  · exact .inl ⟨.badArguments, nofun, fun _ _ _ _ => rfl⟩
  cases hm : OptionSet.merge (optionsDatum (options.erase hostOption)) with
  | error e =>
    refine .inl ⟨e, OptionSet.plain_of_merge hm, fun σ t g out => ?_⟩
    unfold buildRoot
    rw [if_pos (show σ.callable (.generator g) = true from rfl), hm]
  | ok o =>
    refine .inr ⟨o, rfl, fun σ t g out => ?_⟩
    unfold buildRoot
    rw [if_pos (show σ.callable (.generator g) = true from rfl), hm]
    exact σ.fill_planted t _ o (.build σ.store.next out) g

theorem Gets.blank (h : σ.Gets σ₁ selector o) : (σ₁.store.get σ.store.next).Blank := by
  obtain ⟨_, _, _, hget⟩ := h.fresh
  rw [hget]
  exact ⟨rfl, rfl, rfl⟩

theorem Gets.selector_eq (h : σ.Gets σ₁ selector o) :
    (σ₁.store.get σ.store.next).selector = selector := by
  obtain ⟨_, _, _, hget⟩ := h.fresh
  rw [hget]
  rfl

theorem Gets.lt (h : σ.Gets σ₁ selector o) : σ.store.next < σ₁.store.next := by
  rw [h.next]
  exact Nat.lt_succ_self _

end Session

/-- Two runs of a body, to fill a rule set that was made last in both sessions. -/
def Ground.ofNew (L₁ R₁ : Session) {n n' : NodeId} (lt : n < L₁.store.next)
    (lt' : n' < R₁.store.next)
    {lead : String} (leading : Leading lead) {purpose purpose' : Purpose} (fills : purpose.Fills n)
    (fills' : purpose'.Fills n') (tag tag' : Tag) (outer outer' : List Call) (bodies : Bodies) :
    Ground where
  left := L₁
  right := R₁
  root := n
  root' := n'
  root_lt := lt
  root'_lt := lt'
  lead := lead
  leading := leading
  purpose := purpose
  purpose' := purpose'
  fills := fills
  fills' := fills'
  tag := tag
  tag' := tag'
  outer := outer
  outer' := outer'
  bodies := bodies
  bound := 0

section New

variable {closed : Prop} {L R L₁ R₁ : Session} {d d' : Datum} {o : OptionSet} {lead : String}
  {bodies : Bodies} {purpose purpose' : Purpose} {tag tag' : Tag} {outer outer' : List Call}

/-- What two runs have in common at the start, if the second one is to fill a rule set that was just
made: the options, and the selectors up to numbers, but for the text before the first one. No rule
set is referred to. -/
theorem Session.Gets.fit_of {n : NodeId} (hR : R.Gets R₁ d' o) (lt : n < L₁.store.next)
    (hc : L₁.Compatible R₁ o.className bodies) (options : L₁.store.optionsOf n = o)
    (selector : (L₁.store.get n).selector.bare = (d'.led lead).bare)
    (hr : ∀ m, .node m ∉ d'.identities) (mode : (L₁.store.get n).Blank ∨
      ¬closed ∧ L₁.store.clearsOnReset n = false) (leading : Leading lead)
    (fills : purpose.Fills n) (fills' : purpose'.Fills R.store.next) :
    (Ground.ofNew L₁ R₁ lt hR.lt leading fills fills' tag tag' outer outer' bodies).Fit closed := by
  have hcompatible : L₁.Compatible R₁ (R₁.store.optionsOf R.store.next).className bodies := by
    rw [hR.options]
    exact hc
  exact {
    hcompatible with
    options := options.trans hR.options.symm
    selector := by
      show (L₁.store.get n).selector.bare =
        ((R₁.store.get R.store.next).selector.led lead).bare
      rw [hR.selector_eq]
      exact selector
    refers := fun m hm => by
      have hm : .node m ∈ (R₁.store.get R.store.next).selector.identities := hm
      rw [hR.selector_eq] at hm
      exact absurd hm (hr m)
    bound_le := Nat.zero_le _
    bound_le' := Nat.zero_le _
    shared := fun m hm => absurd hm (Nat.not_lt_zero m)
    empty' := ⟨hR.blank.text, hR.blank.children, hR.blank.scope⟩
    mode := by
      refine mode.imp (fun h => ⟨h.text, h.children, h.scope⟩) (.imp_right fun h => ?_)
      show R₁.store.clearsOnReset R.store.next = false
      unfold Store.clearsOnReset at h ⊢
      rw [hR.options, ← options]
      exact h }

/-- Two roots that were just made, with selectors that differ only in the lead, can be compared. -/
theorem Session.Gets.fit (hL : L.Gets L₁ d o) (hR : R.Gets R₁ d' o)
    (hc : L.Compatible R o.className bodies) (hd : d.bare = (d'.led lead).bare)
    (hr : ∀ m, .node m ∉ d'.identities) (leading : Leading lead) (fills : purpose.Fills L.store.next)
    (fills' : purpose'.Fills R.store.next) :
    (Ground.ofNew L₁ R₁ hL.lt hR.lt leading fills fills' tag tag' outer outer' bodies).Fit closed :=
  hR.fit_of hL.lt (hL.alters.compatible hR.alters hc) hL.options
    ((congrArg Datum.bare hL.selector_eq).trans hd) hr (.inl hL.blank) leading fills fills'

/-- A statement fills a rule set in one state, while a build fills one that was just made in another
state. If the build is completed without a failure, so is the statement. -/
theorem Machine.cleanly_of_built {m m' m₁' : Machine} {action action' : Action Datum (List Stmt)}
    {body : List Stmt} {n : NodeId} {lt : n < L₁.store.next} {lt' : R.store.next < R₁.store.next}
    {leading : Leading lead} {fills : purpose.Fills n} {a : Result}
    (hf : (Ground.ofNew L₁ R₁ lt lt' leading fills (.build .node) tag tag' m.session.calls
      m'.session.calls bodies).Fit False)
    (hb : m.session.begin action = .enter L₁ purpose body)
    (hb' : m'.session.begin action' = .enter R₁ (.build R.store.next .node) body)
    (parent' : (R₁.store.get R.store.next).parent = none) (hbody : bodies 1 body)
    (settled : m.settled = none) (settled' : m'.settled = none)
    (hp : m'.Cleanly tag' action' (.ok a) m₁') : ∃ res m₁ σ σ₁,
      a = .value (.node R.store.next) ∧ m.Cleanly tag action res m₁ ∧
      (Ground.ofNew L₁ R₁ lt lt' leading fills (.build .node) tag tag' m.session.calls
        m'.session.calls bodies).Twins σ m₁'.session ∧
      Ground.Ended σ purpose tag m.session.calls m₁ σ₁ res := by
  obtain ⟨res, m₁, hq, ho⟩ := Ground.cleanly_of_cleanly hf
    (hf.abreast rfl rfl hb hb' hbody settled settled')
    (fun i hi => hi.shut False.elim parent') rfl rfl hp
  have hset := hq.performs.choose_spec.2.1
  have hset' := hp.performs.choose_spec.2.1
  cases ho with
  | raised e settled settled' => cases hset'.symm.trans settled'
  | @given σ σ' σ₁ _ _ _ twins left right =>
    cases hset.symm.trans left.settled
    cases hset'.symm.trans right.settled
    cases right.finish
    refine ⟨_, m₁, σ, σ₁, rfl, hq, ?_, left⟩
    rw [right.session]
    exact ⟨twins.left, twins.right.trans (.of_kept rfl), twins.store⟩

end New

namespace Ground.Twins

variable {γ : Ground} {closed : Prop} {σ σ' : Session}

/-- A rule set that held nothing has come to have the same tree as the other one, but for the text
before selectors. -/
theorem shape (h : γ.Twins σ σ') (hf : γ.Fit closed) (hb : (γ.left.store.get γ.root).Blank) :
    σ.store.shape γ.root = (σ'.store.shape γ.root').led γ.lead := by
  have hs := h.store.shape hf.selector .root (Pairing.before_root (π := γ.pairing) ▸ hb)
  rw [Pairing.image_root] at hs
  exact hs

/-- If the selector of the other one is a text, all selectors in its tree are. -/
theorem isText (h : γ.Twins σ σ') (hb : (γ.left.store.get γ.root).Blank)
    (ht : (γ.right.store.get γ.root').selector.isText = true) {x : NodeId}
    (hx : x ∈ σ'.store.forest.preorder γ.root') : (σ'.store.get x).selector.isText = true :=
  h.store.isText
    (h.store.of_mem_preorder .root (Pairing.before_root (π := γ.pairing) ▸ hb) hx).1 ht

/-- Where there was nothing before, both roots have the same blocks but for the text before
selectors. -/
theorem blocks (h : γ.Twins σ σ') (hf : γ.Fit closed) (hb : (γ.left.store.get γ.root).Blank) :
    σ.store.blocks σ.hostName γ.root =
      (σ'.store.blocks σ'.hostName γ.root').map (List.map (γ.lead ++ ·)) := by
  have hs := h.store.blocks hf.selector hf.options .root
    (Pairing.before_root (π := γ.pairing) ▸ hb) σ.hostName σ'.hostName
  rw [Pairing.image_root] at hs
  exact hs

/-- Without such a text, it has come to have the same tree. -/
theorem sameTree (h : γ.Twins σ σ') (hf : γ.Fit closed) (hb : (γ.left.store.get γ.root).Blank)
    (hl : γ.lead = "") : σ.SameTree γ.root σ' γ.root' := by
  have hs := h.store.sameTree hl hf.selector hf.options .root
    (Pairing.before_root (π := γ.pairing) ▸ hb)
  rw [Pairing.image_root] at hs
  exact hs

/-- In the tree there is text only where the selector is one. -/
theorem written (h : γ.Twins σ σ') (hf : γ.Fit closed) (hb : (γ.left.store.get γ.root).Blank)
    {x : NodeId} (hx : x ∈ σ.store.forest.preorder γ.root) : (σ.store.get x).Written := by
  refine h.store.written_of_mem hf.selector .root
    (Pairing.before_root (π := γ.pairing) ▸ hb) ?_
  rw [Pairing.image_root]
  exact hx

end Ground.Twins

end RuleTree
