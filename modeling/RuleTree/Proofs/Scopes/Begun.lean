import RuleTree.Proofs.Scopes.Launched
import RuleTree.Session.Begin

/-!
# Statements of two runs

* `Session.Tallies.build`, `Session.Tallies.construct`: rule sets are built alike;
* `Session.Tallies.obtain`, `Session.Tallies.create` and the like: style sheets of hosts are found,
  built, kept and forgotten alike;
* `Session.Tallies.read`, `Session.Tallies.iterate`, `Session.Tallies.advance`: what is read is the
  same, as long as it is no scope and no tree writes its custom properties;
* `Session.discreet`: a statement that reads no scope back;
* `Session.Tallies.begin`, `Session.Tallies.finish`: any such statement begins and goes on alike, if
  it is no definition.
-/

namespace RuleTree

variable {μ ν : Matching}

namespace Session.Tallies

variable {σ σ' : Session} {d d' g g' hd hd' : Datum} {o o' : Table Datum}

/-! ### Building -/

theorem givenHost (h : d.Tallies μ d') :
    Option.Rel (Datum.Tallies μ) (Session.givenHost d) (Session.givenHost d') := by
  unfold Session.givenHost
  rw [h.isNull]
  split
  · exact .none
  · exact .some h

theorem optionsDatum (ho : o.Rel (Datum.Tallies μ) o') :
    (Session.optionsDatum o).Tallies μ (Session.optionsDatum o') :=
  .dict (List.rel_map (fun _ _ hp => .mk (hp.left ▸ .text _) hp.right) ho.entries)

theorem hasAny (ho : o.Rel (Datum.Tallies μ) o') (names : List String) :
    Session.hasAny o names = Session.hasAny o' names := by
  unfold Session.hasAny
  congr 1
  funext name
  exact ho.contains name

theorem buildRoot (h : σ.Tallies μ σ') (hs : d.Tallies μ d') (hh : hd.Tallies μ hd')
    (hg : g.Tallies μ g') (ho : o.Rel (Datum.Tallies μ) o') {p p' : NodeId → Purpose}
    (hp : ∀ n, (p n).Tallies μ (p' n)) :
    (σ.buildRoot d hd g o p).Tallies μ (σ'.buildRoot d' hd' g' o' p') := by
  have hm := OptionSet.Tallies.merge h.counts.oneToOne h.counts.naming (optionsDatum ho)
  unfold Session.buildRoot
  rw [h.callable hg]
  split
  · revert hm
    generalize OptionSet.merge _ = x, OptionSet.merge _ = y
    rintro (e | hm)
    · exact .refuse h e
    · simp only
      rw [h.store.next]
      exact h.fill (h.store.plant hs (givenHost hh) hm) _ (hp _) hg
  · exact .refuse h _

theorem build (h : σ.Tallies μ σ') (hs : d.Tallies μ d') (hg : g.Tallies μ g')
    {a a' : Option Datum} (ha : Option.Rel (Datum.Tallies μ) a a')
    (ho : o.Rel (Datum.Tallies μ) o') (out : Output) :
    (σ.build d g a o out).Tallies μ (σ'.build d' g' a' o' out) := by
  unfold Session.build
  rw [hasAny ho, ha.isSome, ho.contains]
  split
  · exact .refuse h _
  · split
    · exact .refuse h _
    · refine h.buildRoot hs ?_ hg (ho.erase _) fun n => .build n out
      cases ha with
      | none => exact (ho.find? _).getD .null
      | some ha => exact ha

theorem construct (h : σ.Tallies μ σ') (hs : d.Tallies μ d') (hg : g.Tallies μ g')
    (hh : hd.Tallies μ hd') (ho : o.Rel (Datum.Tallies μ) o') (parent : Option NodeId) :
    (σ.construct d g hd o parent).Tallies μ (σ'.construct d' g' hd' o' parent) := by
  unfold Session.construct
  cases parent with
  | none => exact h.buildRoot hs hh hg ho fun n => .build n .node
  | some p =>
    simp only
    rw [h.callable hg, h.store.next]
    split
    · exact h.fill (h.store.sprout hs (givenHost hh) p) _ (.build _ .node) hg
    · exact .refuse h _

/-! ### Style sheets -/

section Registry

variable {r r' : Registry} {p p' : Identity → Bool}
  (hp : ∀ {i i' : Identity}, i.Tallies μ i' → p i = p' i')
include hp

theorem find?_registry (h : List.Forall₂ (Entry.Tallies μ) r r') :
    Registry.find? r p = Registry.find? r' p' := by
  unfold Registry.find?
  induction h with
  | nil => rfl
  | cons he _ ih =>
    rw [List.find?_cons, List.find?_cons, hp he.host]
    split
    · exact congrArg some he.sheet
    · exact ih

theorem put_registry (h : List.Forall₂ (Entry.Tallies μ) r r') {i i' : Identity}
    (hi : i.Tallies μ i') (n : NodeId) :
    List.Forall₂ (Entry.Tallies μ) (Registry.put p i n r) (Registry.put p' i' n r') := by
  induction h with
  | nil => exact .cons ⟨hi, rfl⟩ .nil
  | cons he hs ih =>
    unfold Registry.put
    rw [hp he.host]
    split
    · exact .cons ⟨he.host, rfl⟩ hs
    · exact .cons he ih

theorem erase_registry (h : List.Forall₂ (Entry.Tallies μ) r r') :
    List.Forall₂ (Entry.Tallies μ) (Registry.erase p r) (Registry.erase p' r') := by
  induction h with
  | nil => exact .nil
  | cons he hs ih =>
    unfold Registry.erase
    rw [hp he.host]
    split
    · exact hs
    · exact .cons he ih

end Registry

variable {i i' : Identity}

theorem asHost (h : σ.Tallies μ σ') (hh : d.Tallies μ d') :
    Both (Identity.Tallies μ) (σ.asHost d) (σ'.asHost d') := by
  have key : Both (Identity.Tallies μ)
      (d.identity?.elim (.error .notReferable) fun i =>
        if σ.hasHash i then .ok i else .error .notHashable)
      (d'.identity?.elim (.error .notReferable) fun i =>
        if σ'.hasHash i then .ok i else .error .notHashable) := by
    have hi := hh.identity?
    revert hi
    generalize d.identity? = i, d'.identity? = i'
    rintro (hi | _)
    · simp only [Option.elim_some, h.hasHash hi]
      split
      · exact .ok hi
      · exact .error _
    · exact .error _
  cases hh with
  | answer => exact .error _
  | _ => exact key

theorem sheet? (h : σ.Tallies μ σ') (id : RegistryId) (hi : i.Tallies μ i') :
    σ.sheet? id i = σ'.sheet? id i' := find?_registry (fun hj => h.equal hj hi) (h.entries id)

theorem setEntries (h : σ.Tallies μ σ') (id : RegistryId) {r r' : Registry}
    (hr : List.Forall₂ (Entry.Tallies μ) r r') :
    (σ.setEntries id r).Tallies μ (σ'.setEntries id r') :=
  { h with registries := h.registries.setIfInBounds id hr }

theorem putSheet (h : σ.Tallies μ σ') (id : RegistryId) (hi : i.Tallies μ i') (n : NodeId) :
    (σ.putSheet id i n).Tallies μ (σ'.putSheet id i' n) :=
  h.setEntries id (put_registry (fun hj => h.equal hj hi) (h.entries id) hi n)

theorem eraseSheet (h : σ.Tallies μ σ') (id : RegistryId) (hi : i.Tallies μ i') :
    (σ.eraseSheet id i).Tallies μ (σ'.eraseSheet id i') :=
  h.setEntries id (erase_registry (fun hj => h.equal hj hi) (h.entries id))

theorem obtain (h : σ.Tallies μ σ') (id : RegistryId) (hh : hd.Tallies μ hd')
    (hg : g.Tallies μ g') (ho : o.Rel (Datum.Tallies μ) o') (out : Output) :
    (σ.obtain id hd g o out).Tallies μ (σ'.obtain id hd' g' o' out) := by
  unfold Session.obtain
  rw [hasAny ho, h.callable hg]
  split
  · exact .refuse h _
  · split
    · have hi := h.asHost hh
      revert hi
      generalize σ.asHost hd = x, σ'.asHost hd' = y
      rintro (e | hi)
      · exact .refuse h e
      · simp only
        rw [h.sheet? id hi]
        split
        · have hr := h.record .resettingSheet hh
          revert hr
          generalize σ.record .resettingSheet hd = x, σ'.record .resettingSheet hd' = y
          rintro (e | h)
          · exact .refuse ‹_› e
          · exact h.reset _ (some id) out hg
        · have hr := h.record .buildingSheet hh
          revert hr
          generalize σ.record .buildingSheet hd = x, σ'.record .buildingSheet hd' = y
          rintro (e | h)
          · exact .refuse ‹_› e
          · simp only
            rw [ho.contains]
            split
            · exact .refuse h _
            · exact h.buildRoot (.text _) hh hg ho fun n => .register id hi n out
    · exact .refuse h _

theorem createWith (h : σ.Tallies μ σ') (hh : hd.Tallies μ hd') (hg : g.Tallies μ g')
    (hs : d.Tallies μ d') (ho : o.Rel (Datum.Tallies μ) o') :
    (σ.createWith hd g d o).Tallies μ (σ'.createWith hd' g' d' o') := by
  unfold Session.createWith
  rw [hh.isNull, hs.isNull, h.callable hg]
  split
  · split
    · exact h.obtain _ hh hg ho .css
    · exact .refuse h _
  · split
    · exact h.obtain _ hg hs ho .css
    · split
      · exact h.build (.text _) hg .none ho .css
      · exact .refuse h _

theorem create (h : σ.Tallies μ σ') {as as' : List Datum}
    (ha : List.Forall₂ (Datum.Tallies μ) as as') (hh : hd.Tallies μ hd')
    (ho : o.Rel (Datum.Tallies μ) o') : (σ.create as hd o).Tallies μ (σ'.create as' hd' o') := by
  unfold Session.create
  rw [hh.isNull, ho.contains]
  split
  · exact .refuse h _
  have hhost : (if hd'.isNull then (o.find? hostOption).getD .null else hd).Tallies μ
      (if hd'.isNull then (o'.find? hostOption).getD .null else hd') := by
    split
    · exact (ho.find? _).getD .null
    · exact hh
  have hoptions := ho.erase hostOption
  rcases ha with _ | ⟨hf, _ | ⟨hs, _ | _⟩⟩
  · exact .refuse h _
  · exact h.createWith hhost hf .null hoptions
  · exact h.createWith hhost hf hs hoptions
  · exact .refuse h _

theorem lookup (h : σ.Tallies μ σ') (id : RegistryId) (hh : hd.Tallies μ hd') :
    Both (Result.Tallies μ) (σ.lookup id hd) (σ'.lookup id hd') :=
  (h.asHost hh).map fun _ _ hi => h.sheet? id hi ▸ .node? _

theorem release (h : σ.Tallies μ σ') (id : RegistryId) (hh : hd.Tallies μ hd') :
    (σ.release id hd).Tallies μ (σ'.release id hd') := by
  have hr := h.record .releasingSheet hh
  unfold Session.release
  revert hr
  generalize σ.record .releasingSheet hd = x, σ'.record .releasingSheet hd' = y
  rintro (e | h)
  · exact .refuse ‹_› e
  · have hi := h.asHost hh
    simp only
    revert hi
    generalize Session.asHost _ hd = x, Session.asHost _ hd' = y
    rintro (e | hi)
    · cases e with
      | notHashable =>
        -- nothing is looked for in an empty registry
        simp only
        rw [isEmpty_of_forall₂ (h.entries id)]
        split
        · exact .answer h (.ok .nothing)
        · exact .refuse h _
      | _ => exact .refuse h _
    · simp only
      rw [h.sheet? id hi]
      exact .done (.refl μ) (h.eraseSheet id hi) (.ok (.node? _))

theorem containsHost (h : σ.Tallies μ σ') (id : RegistryId) (hh : hd.Tallies μ hd') :
    Both (Result.Tallies μ) (σ.containsHost id hd) (σ'.containsHost id hd') := by
  have hi := h.asHost hh
  unfold Session.containsHost
  revert hi
  generalize σ.asHost hd = x, σ'.asHost hd' = y
  rintro (e | hi)
  · split
    · rename_i he
      cases he
    · rename_i he
      cases he
      exact .ok (.bool false)
    · rename_i he
      cases he
      exact .error _
  · simp only
    rw [h.sheet? id hi]
    exact .ok (.bool _)

/-! ### Hosts and registries -/

theorem kindHasHash (h : σ.Tallies μ σ') {k k' : HostKind Datum}
    (hk : HostKind.Rel (Datum.Tallies μ) k k') : σ.kindHasHash k = σ'.kindHasHash k' := by
  cases hk with
  | equal hk => exact hk.isKey fun hi => h.hasHash hi
  | _ => rfl

theorem hostOfKey? (h : σ.Tallies μ σ') (hd : d.Tallies μ d') :
    σ.hostOfKey? d = σ'.hostOfKey? d' := by
  refine h.hosts.findIdx? fun host host' hh => ?_
  have hk := hh.kind
  revert hk
  generalize host.kind = k, host'.kind = k'
  intro hk
  cases hk with
  | equal hk => exact hk.equals (fun hi hj => h.equal hi hj) hd
  | _ => rfl

theorem makeHost (h : σ.Tallies μ σ') (name : String) {k k' : HostKind Datum}
    (hk : HostKind.Rel (Datum.Tallies μ) k k') :
    (σ.makeHost name k).Tallies μ (σ'.makeHost name k') := by
  refine { h with hosts := h.hosts.push ⟨rfl, hk, ?_, h.kindHasHash hk⟩, hostNames := ?_ }
  · rw [h.hosts.size]
    cases hk with
    | equal hk =>
      simp only
      rw [hk.equals (fun hi hj => h.equal hi hj) hk, h.hostOfKey? hk]
    | _ => rfl
  · show σ.hostNames.insert name σ.hosts.size = σ'.hostNames.insert name σ'.hosts.size
    rw [h.hostNames, h.hosts.size]

theorem makeRegistry (h : σ.Tallies μ σ') (name : String) :
    (σ.makeRegistry name).1.Tallies μ (σ'.makeRegistry name).1 := by
  refine { h with registries := h.registries.push .nil, registryNames := ?_ }
  show σ.registryNames.insert name σ.registries.size =
    σ'.registryNames.insert name σ'.registries.size
  rw [h.registryNames, h.registries.size]

theorem onRegistry (h : σ.Tallies μ σ') (name : String) {act act' : Session → RegistryId → Start}
    (ha : ∀ {σ σ' : Session} (id : RegistryId), σ.Tallies μ σ' →
      (act σ id).Tallies μ (act' σ' id)) :
    (σ.onRegistry name act).Tallies μ (σ'.onRegistry name act') := by
  unfold Session.onRegistry Session.withRegistry
  rw [h.registryNames]
  cases σ'.registryNames.find? name with
  | some id => exact ha id h
  | none =>
    show (act (σ.makeRegistry name).1 σ.registries.size).Tallies μ
      (act' (σ'.makeRegistry name).1 σ'.registries.size)
    rw [h.registries.size]
    exact ha _ (h.makeRegistry name)

theorem onNode (h : σ.Tallies μ σ') (t : Target) {act act' : NodeId → Start}
    (ha : ∀ n, σ.target t = .node n → (act n).Tallies μ (act' n)) :
    (σ.onNode t act).Tallies μ (σ'.onNode t act') := by
  have ht := h.target t
  unfold Session.onNode
  revert ht ha
  generalize σ.target t = d, σ'.target t = d'
  intro ha ht
  cases ht with
  | node n => exact ha n rfl
  | _ => exact .refuse h _

theorem size (h : σ.Tallies μ σ') (id : RegistryId) :
    (Result.value (.int (σ.entries id).length)).Tallies μ
      (.value (.int (σ'.entries id).length)) := (h.entries id).length_eq ▸ .value (.int _)

theorem registryLabel (h : σ.Tallies μ σ') (id : RegistryId) :
    (Result.text (σ.registryLabel id)).Tallies μ (.text (σ'.registryLabel id)) := by
  unfold Session.registryLabel
  rw [(h.entries id).length_eq]
  exact .text _

end Session.Tallies

/-! ### Reading -/

/-- Whether something that can be read of a rule set shows no scope. -/
def Facet.discreet : Facet → Bool
  | scope => false
  | dump => false
  | label => false
  | _ => true

theorem Datum.Tallies.incomplete? {d d' : Datum} (h : d.Tallies μ d') :
    RuleTree.incomplete? d = RuleTree.incomplete? d' := by
  cases h <;> rfl

namespace Session.Tallies

variable {σ σ' : Session} {d d' : Datum}

theorem probe (h : σ.Tallies μ σ') (n : NodeId) (listed : List (String × Picture))
    (names : List String) : (σ.probe n listed names).Tallies μ (σ'.probe n listed names) := by
  induction names generalizing μ σ σ' listed with
  | nil => exact .answer h (.ok (.options _))
  | cons name names ih =>
    have hv := ((h.store.optionsOf h.counts.naming n).get? name).getD .null
    unfold Session.probe
    simp only
    revert hv
    generalize ((σ.store.optionsOf n).get? name).getD .null = v,
      ((σ'.store.optionsOf n).get? name).getD .null = v'
    intro hv
    rw [h.callable hv]
    split
    · have ha := h.apply hv (.kind OptionSet.sampleName h.counts.sample)
      revert ha
      show (σ.apply v OptionSet.sample).Tallies μ (σ'.apply v' OptionSet.sample) → _
      generalize σ.apply v OptionSet.sample = x, σ'.apply v' OptionSet.sample = y
      intro ha
      cases ha with
      | gives le session value =>
        simp only
        rw [session.picture value]
        split
        · exact .later le (.refuse session _)
        · exact .later le (ih session _)
      | fails e => exact .refuse h e
      | runs body => exact .enter (.refl μ) h (.probe n hv _ _ _) body
    · rw [h.picture hv]
      split
      · exact .refuse h _
      · exact ih h _

theorem listOptions (h : σ.Tallies μ σ') (n : NodeId) :
    (σ.listOptions n).Tallies μ (σ'.listOptions n) := by
  unfold Session.listOptions
  rw [(h.store.optionsOf h.counts.naming n).names]
  exact h.probe n [] _

theorem iterate (h : σ.Tallies μ σ') (hd : d.Tallies μ d') (walk : Walk) (name : String) :
    (σ.iterate d walk name).Tallies μ (σ'.iterate d' walk name) := by
  cases walk with
  | items =>
    have hi := Iteration.Tallies.of? hd
    unfold Session.iterate
    simp only
    revert hi
    generalize Iteration.of? d = x, Iteration.of? d' = y
    rintro (e | hi)
    · exact .refuse h e
    · exact .done (.refl μ) { h with iterations := h.iterations.insert name hi } (.ok .nothing)
  | blocks =>
    cases hd with
    | node n =>
      rw [iterate_node, iterate_node]
      exact .done (.refl μ) { h with iterations := h.iterations.insert name (.blocks _) }
        (.ok .nothing)
    | _ => exact .refuse h _

section Silent

variable (hs : σ.store.silent = true)
include hs

theorem css (h : σ.Tallies μ σ') (n : NodeId) : σ.css n = σ'.css n :=
  h.store.css hs σ.hostName σ'.hostName n

theorem output (h : σ.Tallies μ σ') (n : NodeId) (out : Output) :
    Both (Result.Tallies μ) (σ.output n out) (σ'.output n out) := by
  cases out with
  | node => exact .ok (.value (.node n))
  | css => exact Result.Tallies.texts (h.css hs n)

/-- What is read of a rule set, but for its scope, is the same. -/
theorem readNode (h : σ.Tallies μ σ') (n : NodeId) (facet : Facet) (hf : facet.discreet = true) :
    (σ.readNode n facet).Tallies μ (σ'.readNode n facet) := by
  have hn := h.store.get n
  unfold Session.readNode
  cases facet with
  | selector => exact .answer h (.ok (.value hn.selector))
  | text => exact .answer h (.ok (hn.text ▸ .text _))
  | children => exact .answer h (.ok (hn.children ▸ .value (.nodes _)))
  | parent => exact .answer h (.ok (h.parent? n ▸ .node? _))
  | host => exact .answer h (.ok (.value (h.hostOf n)))
  | incomplete =>
    simp only
    rw [hn.selector.incomplete?]
    exact .answer h (.map_of_eq rfl .bool)
  | options => exact h.listOptions n
  | css => exact .answer h (Result.Tallies.texts (h.css hs n))
  | spelling => exact .answer h (Result.Tallies.texts (h.css hs n))
  | blocks =>
    simp only
    rw [congrFun (h.appearance hs).blocks n]
    exact .answer h (.map_of_eq rfl fun texts => .value (.list (forall₂_map .text texts)))
  | itself => exact .answer h (.ok (.value (.node n)))
  | child index =>
    simp only
    rw [hn.children]
    split
    · exact .answer h (.ok (.value (.node _)))
    · exact .refuse h _
  | _ => cases hf

/-- What is read of any value is the same, if neither a scope is read nor a label. -/
theorem read (h : σ.Tallies μ σ') (hd : d.Tallies μ d') (facet : Facet)
    (hf : facet.discreet = true) (hu : facet = .spelling → d.unnested = true) :
    (σ.read d facet).Tallies μ (σ'.read d' facet) := by
  have whole := hd
  cases facet with
  | itself =>
    cases hd with
    | node n => exact h.readNode hs n .itself hf
    | _ => exact .answer h (.ok (.value whole))
  | spelling =>
    have same := whole.eq_of (hu rfl) (h.appearance hs) Datum.spelled_bare
    cases hd with
    | node n => exact h.readNode hs n .spelling hf
    | _ => exact .answer h (Result.Tallies.texts same)
  | scope => cases hf
  | dump => cases hf
  | label => cases hf
  | _ =>
    cases hd with
    | node n => exact h.readNode hs n _ hf
    | _ => exact .refuse h _

theorem advance (h : σ.Tallies μ σ') (name : String) (count : Nat) :
    (σ.advance name count).Tallies μ (σ'.advance name count) := by
  have hi := h.iterations.find? name
  unfold Session.advance
  revert hi
  generalize σ.iterations.find? name = i, σ'.iterations.find? name = i'
  rintro (hi | _)
  · have ht := hi.take hs h.store σ.appearance σ'.appearance count
    simp only
    revert ht
    generalize Iteration.take σ.store σ.appearance count _ = x,
      Iteration.take σ'.store σ'.appearance count _ = y
    rintro ⟨hds, hi⟩
    exact .done (.refl μ) { h with iterations := h.iterations.insert name hi }
      (hds.map fun _ _ hds => .value (.list hds))
  · exact .refuse h _

end Silent

end Session.Tallies

/-! ### Statements -/

/-- Whether a statement reads no scope back: it neither reads a scope, nor shows a label of a rule
set, nor keeps the scope that a definition tells. -/
def Session.discreet (σ : Session) (tag : Tag) : Action Datum (List Stmt) → Bool
  | .select t method argument generator =>
    match σ.target t with
    | .node n => σ.discreetCall n method argument generator
    | _ => true
  | .assign _ properties keywords =>
    (((properties.getD .null).entries?.getD []).all fun e => e.2.unnested) &&
      keywords.all fun e => e.2.unnested
  | .define _ _ _ => tag.saved.isNone
  | .read t facet => facet.discreet && (facet != .spelling || (σ.target t).unnested)
  | _ => true

namespace Session.Tallies

variable {σ σ' : Session}

theorem changeStore (h : σ.Tallies μ σ') {x y : Except Error Store}
    (hs : Both (Store.Tallies μ) x y) {f f' : Store → Result}
    (hf : ∀ {s s' : Store}, s.Tallies μ s' → (f s).Tallies μ (f' s')) :
    (σ.changeStore x f).Tallies μ (σ'.changeStore y f') := by
  cases hs with
  | error e => exact .refuse h e
  | ok hs => exact .done (.refl μ) { h with store := hs } (.ok (hf hs))

theorem written {s s' : Store} (hs : s.Tallies μ s') (n : NodeId) :
    (Result.written (s.get n).text).Tallies μ (.written (s'.get n).text) :=
  (hs.get n).text ▸ .written _

variable (hs : σ.store.silent = true)
include hs

theorem assign (h : σ.Tallies μ σ') (n : NodeId) {p p' : Option Datum}
    {k k' : List (String × Datum)} (hp : Option.Rel (Datum.Tallies μ) p p')
    (hk : NamedRel (Datum.Tallies μ) k k')
    (hu : (((p.getD .null).entries?.getD []).all fun e => e.2.unnested) = true)
    (hku : (k.all fun e => e.2.unnested) = true) :
    Both (Store.Tallies μ) (σ.store.assign σ.appearance n (p.getD .null) (.ofList k))
      (σ'.store.assign σ'.appearance n (p'.getD .null) (.ofList k')) := by
  have same := (hp.getD .null).declarationsOf (.ofList hk) (h.appearance hs)
    (fun es he => List.all_eq_true.1 (by rwa [he] at hu)) fun e he =>
      List.all_eq_true.1 hku e ((Table.mem_insertAll he).resolve_left nofun)
  unfold Store.assign
  exact (Both.of_eq same).bind fun _ _ e => h.store.write n (e ▸ .text _)

/-- Any statement that reads no scope back begins alike, unless it is a definition. -/
theorem begin (h : σ.Tallies μ σ') {tag : Tag} {a a' : Action Datum (List Stmt)}
    (ha : Action.Rel (Datum.Tallies μ) Body.Varies a a') (hd : σ.discreet tag a = true)
    (hno : a.defines = false) : (σ.begin a).Tallies μ (σ'.begin a') := by
  cases ha with
  | select t method argument generator =>
    refine h.onNode t fun n ht => ?_
    simp only [Session.discreet, ht] at hd
    exact h.callMethod hs n method argument generator hd
  | write t text =>
    exact h.onNode t fun n _ => h.changeStore (h.store.write n text) fun hs => written hs n
  | assign t properties keywords =>
    obtain ⟨hu, hku⟩ := (Bool.and_eq_true ..).mp hd
    exact h.onNode t fun n _ => h.changeStore (h.assign hs n properties keywords hu hku)
      fun hs => written hs n
  | define t name value => cases hno
  | setScope t name value => exact h.onNode t fun n _ => .refuse h _
  | check t name => exact h.onNode t fun n _ => .answer h (.ok (h.sees n name ▸ .bool _))
  | var t name =>
    exact h.onNode t fun n _ => .answer h (Result.Tallies.texts (h.reference n name))
  | reset t generator => exact h.onNode t fun n _ => h.reset n none .node generator
  | read t facet =>
    obtain ⟨hf, hu⟩ := (Bool.and_eq_true ..).mp hd
    refine h.read hs (h.target t) facet hf fun e => ?_
    simpa [e] using hu
  | setOption t name value =>
    exact h.onNode t fun n _ =>
      h.changeStore (.ok (h.store.setOption n name value)) fun _ => .nothing
  | iterate t walk iteration => exact h.iterate (h.target t) walk iteration
  | advance iteration count => exact h.advance hs iteration count
  | same a b => exact .answer h (.ok (h.handles ▸ .bool _))
  | drop handle =>
    exact .done (.refl μ) { h with handles := congrArg (Table.erase · handle) h.handles }
      (.ok .nothing)
  | build selector generator host options =>
    exact h.build selector generator host (.ofList options) .node
  | construct parent selector generator host options =>
    rw [show σ'.begin _ = σ'.construct _ _ _ _ (parent.bind σ.handles.find?) by
      rw [h.handles]; rfl]
    exact h.construct selector generator (host.getD .null) (.ofList options) _
  | create arguments host options => exact h.create arguments (host.getD .null) (.ofList options)
  | makeHost name kind => exact .done (.refl μ) (h.makeHost name kind) (.ok .nothing)
  | dropHost name =>
    exact .done (.refl μ) { h with hostNames := congrArg (Table.erase · name) h.hostNames }
      (.ok .nothing)
  | makeRegistry name => exact .done (.refl μ) (h.makeRegistry name) (.ok .nothing)
  | lookup name host => exact h.onRegistry name fun id h => .answer h (h.lookup id host)
  | release name host => exact h.onRegistry name fun id h => h.release id host
  | contains name host => exact h.onRegistry name fun id h => .answer h (h.containsHost id host)
  | size name => exact h.onRegistry name fun id h => .answer h (.ok (h.size id))
  | labelRegistry name => exact h.onRegistry name fun id h => .answer h (.ok (h.registryLabel id))
  | clear name =>
    exact h.onRegistry name fun id h => .done (.refl μ) (h.setEntries id .nil) (.ok .nothing)
  | obtain name host generator options =>
    exact h.onRegistry name fun id h => h.obtain id host generator (.ofList options) .node
  | render name host generator options =>
    exact h.onRegistry name fun id h => h.obtain id host generator (.ofList options) .css
  | raise message => exact .refuse h _
  | attempt body => exact .enter (.refl μ) h .attempt body

/-- What a statement does once its body has ended is the same. -/
theorem finish (h : σ.Tallies μ σ') {p p' : Purpose} (hp : p.Tallies μ p') :
    (σ.finish p).Tallies μ (σ'.finish p') := by
  cases hp with
  | select child fragment className =>
    exact .done (.refl μ) { h with store := h.store.attach child } (.ok (.value fragment))
  | build n out => exact .answer h (h.output hs n out)
  | reset n registry out => exact .answer h (h.output hs n out)
  | register registry host n out =>
    have h₁ := h.putSheet registry host n
    exact .answer h₁ (h₁.output (show (σ.putSheet registry _ n).store.silent = true from hs) n out)
  | name n kind generator callee => exact h.selectNamed hs n .null rfl generator
  | probe n callee listed name rest => exact h.probe n _ rest
  | attempt => exact .answer h (.ok (.caught none))

end Session.Tallies

end RuleTree
