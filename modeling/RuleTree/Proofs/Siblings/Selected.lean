import RuleTree.Proofs.Rebuilding.Nested
import RuleTree.Proofs.Siblings.Grown

/-!
# The same selection in a state that has grown

* `RuleSet.renumber`, `Pairing.Mirrors.get_image`: a rule set that was made in one of two stores is
  that of the other one with other numbers for parent and children;
* `Session.Bears`: a rule set has got one more child, and nothing else has changed that was there;
* `Session.Copies`: what was made in one session is what was made in another one;
* `Machine.Grows`: a state to which another one has grown by selections;
* `Machine.Chosen`: what the same selection comes to in both: the same error, or another child with
  everything beneath it;
* `Machine.select_corresponds`: it is completed in the one if it is in the other.
-/

namespace RuleTree

/-! ### Other numbers -/

/-- A rule set with other numbers for its parent and its children. -/
def RuleSet.renumber (f : NodeId → NodeId) (r : RuleSet) : RuleSet :=
  { r with parent := r.parent.map f, children := r.children.map f }

/-- Only the numbers of its parent and its children matter. -/
theorem RuleSet.renumber_congr {f g : NodeId → NodeId} {r : RuleSet}
    (hp : ∀ p ∈ r.parent, f p = g p) (hc : ∀ c ∈ r.children, f c = g c) :
    r.renumber f = r.renumber g := by
  unfold renumber
  rw [List.map_congr_left hc, Option.map_congr hp]

theorem RuleSet.renumber_id (r : RuleSet) : r.renumber id = r := by
  unfold renumber
  rw [List.map_id, Option.map_id]
  rfl

theorem RuleSet.renumber_renumber (f g : NodeId → NodeId) (r : RuleSet) :
    (r.renumber f).renumber g = r.renumber (g ∘ f) := by
  unfold renumber
  rw [Option.map_map, List.map_map]

/-- Rule sets made since the start are the same in both stores, with other numbers, if the roots
were so at the start and held nothing. -/
theorem Pairing.Mirrors.get_image {π : Pairing} {s s' : Store} (h : π.Mirrors s s')
    (hl : π.lead = "") {f : NodeId → NodeId}
    (hroot : π.left.get π.root = (π.right.get π.root').renumber f)
    (hb : (π.right.get π.root').Blank) (ht : (π.right.get π.root').selector.isText = true)
    (hf : ∀ q, π.Inner s' q → f q = π.image q) {n : NodeId} (hn : π.Inner s' n) :
    s.get (π.image n) = (s'.get n).renumber f := by
  have eq {r r' : RuleSet} (selector : r.selector = r'.selector) (parent : r.parent = r'.parent)
      (host : r.host = r'.host) (options : r.options = r'.options) (text : r.text = r'.text)
      (children : r.children = r'.children) (scope : r.scope = r'.scope) : r = r' := by
    cases r
    cases r'
    cases selector
    cases parent
    cases host
    cases options
    cases text
    cases children
    cases scope
    rfl
  have hbefore : (π.before n).Blank := by
    rcases hn with rfl | ⟨hle, -⟩
    · rw [Pairing.before_root, hroot]
      refine ⟨hb.text, ?_, hb.scope⟩
      show (π.right.get π.root').children.map f = []
      rw [hb.children, List.map_nil]
    · exact blank_of_le hle
  have hled : π.Led := by
    unfold Pairing.Led
    rw [hroot, hl, Datum.led_empty]
    rfl
  refine eq ?_ ?_ ?_ ?_ ?_ ?_ ?_
  · obtain ⟨t, hs⟩ := Datum.exists_of_isText (h.isText hn ht)
    have hs' := h.selector hled hn
    rw [hl, Datum.led_empty, hs] at hs'
    exact (Datum.eq_text_of_bare hs').trans hs.symm
  · rcases hn with rfl | ⟨hle, hlt⟩
    · rw [Pairing.image_root, h.root.parent, hroot]
      exact congrArg (Option.map f) h.root'.parent.symm
    · obtain ⟨q, hq, h₁, h₂⟩ := (h.made n hle hlt).parent
      show _ = (s'.get n).parent.map f
      rw [h₁, h₂, Option.map_some, hf q hq]
  · rcases hn with rfl | ⟨hle, hlt⟩
    · rw [Pairing.image_root, h.root.host, hroot]
      exact h.root'.host.symm
    · exact (h.made n hle hlt).host
  · obtain ⟨h₁, h₂⟩ := h.optionsId hn
    rw [h₁, hroot]
    exact h₂.symm
  · rw [h.text n hn, hbefore.text, String.empty_append]
    rfl
  · rw [h.children n hn, hbefore.children, List.nil_append]
    exact List.map_congr_left fun c hc => (hf c (h.inner_child hn hc)).symm
  · rw [h.scope n hn, hbefore.scope, Table.empty_insertAll]
    rfl

namespace Session

variable {σ σ' σ₁ σ₁' : Session} {p : NodeId}

/-! ### One more child -/

/-- A rule set has got one more child, the first rule set that was made since, and of what was there
nothing else has changed. -/
structure Bears (σ σ₁ : Session) (p : NodeId) : Prop where
  extend : σ.Extends σ₁
  calls : σ₁.calls = σ.calls
  lt : σ.store.next < σ₁.store.next
  options : σ₁.store.options = σ.store.options
  parent : σ₁.store.get p =
    { σ.store.get p with children := (σ.store.get p).children ++ [σ.store.next] }
  others : ∀ n < σ.store.next, n ≠ p → σ₁.store.get n = σ.store.get n

theorem Bears.grows (h : σ.Bears σ₁ p) : σ.Grows σ₁ where
  extend := h.extend
  calls := by rw [h.calls]; exact List.Subset.refl _
  next_le := Nat.le_of_lt h.lt
  options := h.options
  older n hn := by
    by_cases he : n = p
    · exact ⟨[σ.store.next], he ▸ h.parent⟩
    · refine ⟨[], ?_⟩
      rw [h.others n hn he, List.append_nil]

/-- Other numbers for what was made since two sessions. -/
def shift (σ σ' : Session) (n : NodeId) : NodeId :=
  if n < σ'.store.next then n else n - σ'.store.next + σ.store.next

/-- What was made since a session is what was made since another one, with other numbers. -/
structure Copies (σ σ₁ σ' σ₁' : Session) : Prop where
  next : σ₁.store.next + σ'.store.next = σ₁'.store.next + σ.store.next
  get : ∀ n, σ'.store.next ≤ n → n < σ₁'.store.next →
    σ₁.store.get (σ.shift σ' n) = (σ₁'.store.get n).renumber (σ.shift σ')
  texts : ∀ n, σ'.store.next ≤ n → n < σ₁'.store.next →
    (σ₁'.store.get n).selector.isText = true

/-- A rule set that was just made is filled. -/
theorem Gets.grows {L : Session} {d : Datum} {o : OptionSet} (hL : σ.Gets L d o)
    (hoptions : L.store.options = σ.store.options) (extend : L.Extends σ₁)
    (calls : σ.calls ⊆ σ₁.calls) (next : L.store.next ≤ σ₁.store.next)
    (options : σ₁.store.options = L.store.options)
    (older : ∀ n < L.store.next, n ≠ σ.store.next → σ₁.store.get n = L.store.get n) :
    σ.Grows σ₁ where
  extend := hL.alters.extends_of.trans extend
  calls := calls
  next_le := Nat.le_trans (Nat.le_of_lt hL.lt) next
  options := options.trans hoptions
  older n hn := by
    refine ⟨[], ?_⟩
    rw [older n (Nat.lt_trans hn hL.lt) (Nat.ne_of_lt hn), hL.older n hn, List.append_nil]

/-- Once it is filled, it is attached to its parent. -/
theorem Gets.bears {L : Session} {d : Datum} {o : OptionSet} (hL : σ.Gets L d o)
    (hoptions : L.store.options = σ.store.options) (extend : L.Extends σ₁)
    (next : L.store.next ≤ σ₁.store.next) (options : σ₁.store.options = L.store.options)
    (older : ∀ n < L.store.next, n ≠ σ.store.next → σ₁.store.get n = L.store.get n)
    (parent : (σ₁.store.get σ.store.next).parent = some p) (hp : p < σ.store.next) :
    σ.Bears { σ₁ with store := σ₁.store.attach σ.store.next, calls := σ.calls } p where
  extend := (hL.alters.extends_of.trans extend).trans (.of_kept rfl)
  calls := rfl
  lt := by
    show σ.store.next < (σ₁.store.attach σ.store.next).next
    rw [Store.next_attach]
    exact Nat.lt_of_lt_of_le hL.lt next
  options := options.trans hoptions
  parent := by
    show (σ₁.store.attach σ.store.next).get p = _
    rw [Store.get_attach, if_pos parent, older p (Nat.lt_trans hp hL.lt) (Nat.ne_of_lt hp),
      hL.older p hp]
  others n hn hne := by
    show (σ₁.store.attach σ.store.next).get n = _
    rw [Store.get_attach, parent, if_neg fun he => hne (Option.some.inj he).symm,
      older n (Nat.lt_trans hn hL.lt) (Nat.ne_of_lt hn), hL.older n hn]

/-- What was made beneath two rule sets that were just made alike is the same once they are attached
to their parents. -/
theorem copies_of_mirrors {L R : Session} {d : Datum} {o : OptionSet} (hL : σ.Gets L d o)
    (hR : σ'.Gets R d o) {t : String} {id : OptionsId}
    (new : L.store.get σ.store.next = .fresh (.text t) (some p) none id)
    (new' : R.store.get σ'.store.next = .fresh (.text t) (some p) none id)
    (lt' : p < σ'.store.next) (lt : p < σ.store.next)
    (h : Pairing.Mirrors
      { left := L.store
        right := R.store
        root := σ.store.next
        root' := σ'.store.next
        root_lt := hL.lt
        root'_lt := hR.lt
        lead := ""
        leading := leading_empty } σ₁.store σ₁'.store) {calls calls' : List Call} :
    σ.Copies { σ₁ with store := σ₁.store.attach σ.store.next, calls }
      σ' { σ₁' with store := σ₁'.store.attach σ'.store.next, calls := calls' } := by
  generalize hπ : (Pairing.mk L.store R.store σ.store.next σ'.store.next hL.lt hR.lt ""
    leading_empty) = π at h
  have hleft : π.left.next = σ.store.next + 1 := by rw [← hπ]; exact hL.next
  have hright : π.right.next = σ'.store.next + 1 := by rw [← hπ]; exact hR.next
  have hroot : π.root = σ.store.next := by rw [← hπ]
  have hroot' : π.root' = σ'.store.next := by rw [← hπ]
  have hfresh : π.left.get π.root = .fresh (.text t) (some p) none id := by rw [← hπ]; exact new
  have hfresh' : π.right.get π.root' = .fresh (.text t) (some p) none id := by rw [← hπ]; exact new'
  have inner {n : NodeId} (hle : σ'.store.next ≤ n) (hlt : n < σ₁'.store.next) :
      π.Inner σ₁'.store n := by
    rcases Nat.eq_or_lt_of_le hle with he | hgt
    · exact .inl (he.symm.trans hroot'.symm)
    · exact .inr ⟨hright ▸ hgt, hlt⟩
  have hshift (q : NodeId) (hq : π.Inner σ₁'.store q) : σ.shift σ' q = π.image q := by
    unfold shift
    rcases hq with rfl | ⟨hle, -⟩
    · rw [Pairing.image_root, hroot, hroot', if_neg (Nat.lt_irrefl _), Nat.sub_self, Nat.zero_add]
    · have key (a b q : Nat) : b + 1 ≤ q → q - b + a = q - (b + 1) + (a + 1) := by omega
      rw [Pairing.image_of_le hle, hleft, hright]
      rw [hright] at hle
      rw [if_neg (Nat.not_lt.2 (Nat.le_of_succ_le hle))]
      exact key _ _ _ hle
  have parent : (σ₁.store.get σ.store.next).parent = some p := by
    have hp := h.root.parent
    rw [hfresh, hroot] at hp
    exact hp
  have parent' : (σ₁'.store.get σ'.store.next).parent = some p := by
    have hp := h.root'.parent
    rw [hfresh', hroot'] at hp
    exact hp
  refine ⟨?_, fun n hle hlt => ?_, fun n hle hlt => ?_⟩
  · have hn := h.next
    rw [hleft, hright] at hn
    show (σ₁.store.attach _).next + _ = (σ₁'.store.attach _).next + _
    rw [Store.next_attach, Store.next_attach]
    exact Nat.succ.inj hn
  · have hlt : n < σ₁'.store.next := Store.next_attach .. ▸ hlt
    have hin := inner hle hlt
    have hget := h.get_image (by rw [← hπ]) (f := σ.shift σ') (by
      rw [hfresh, hfresh']
      unfold RuleSet.renumber RuleSet.fresh shift
      simp only [Option.map_some, if_pos lt', List.map_nil]) (hfresh' ▸ ⟨rfl, rfl, rfl⟩)
      (hfresh' ▸ rfl) hshift hin
    rw [← hshift n hin] at hget
    show (σ₁.store.attach _).get _ = ((σ₁'.store.attach _).get n).renumber _
    have hne : some p ≠ some n := fun he => Nat.not_lt.2 hle (Option.some.inj he ▸ lt')
    have hne' : some p ≠ some (σ.shift σ' n) := fun he => by
      have he := Option.some.inj he
      unfold shift at he
      rw [if_neg (Nat.not_lt.2 hle)] at he
      exact Nat.not_lt.2 (Nat.le_add_left _ _) (he ▸ lt)
    rw [Store.get_attach, Store.get_attach, parent, parent', if_neg hne, if_neg hne', hget]
  · have hlt : n < σ₁'.store.next := Store.next_attach .. ▸ hlt
    show ((σ₁'.store.attach _).get n).selector.isText = true
    rw [((Store.changed_attach parent').madeAs n).selector]
    exact h.isText (inner hle hlt) (hfresh' ▸ rfl)

end Session

namespace Machine

/-! ### Selections -/

/-- A selection by a text and a generator. -/
def selection (t : Target) (fragment : String) (g : Generator) : Action Datum (List Stmt) :=
  .select t "select" (some (.text fragment)) (some (.generator g))

/-- A state has grown from another one by selections on rule sets. Nothing but some generators was
passed, and nothing runs that did not run before. -/
structure Grows (m m' : Machine) (generators : List Generator) : Prop where
  settled : m'.settled = none
  session : m.session.Grows m'.session
  calls : m'.session.calls = m.session.calls
  grounded : m'.session.Grounded
  closed : m'.session.Closed (m.session.Passed generators)

namespace Grows

variable {m m' : Machine} {generators : List Generator} {t : Target} {fragment : String}
  {g : Generator} {tag : Tag}

theorem knows (h : m.Grows m' generators) (hg : m.session.AtHand g) : m'.session.Knows g :=
  h.session.extend.knows hg.knows

/-- While a selection is made, nothing else comes to be referred to. -/
theorem run_perform (h : m.Grows m' generators) (hg : m.session.AtHand g) (hmem : g ∈ generators)
    (tag : Tag) (t : Target) (fragment : String) (k : Nat) :
    (run k (m'.perform tag (selection t fragment g))).Grounded ∧
      (run k (m'.perform tag (selection t fragment g))).session.Closed
        (m.session.Passed generators) := by
  have hargs : (selection t fragment g).arguments.flatMap Datum.identities = [.generator g] := rfl
  have hcovers : m'.session.Covers [.generator g] := by
    intro i hi
    cases List.mem_singleton.1 hi
    have hk := h.knows hg
    cases g <;> exact hk
  obtain ⟨-, hgrounded⟩ := Grounded.perform h.grounded h.settled tag (hargs ▸ hcovers)
  refine ⟨(hgrounded.run k).2, ((Closed.perform h.closed h.grounded h.settled tag ?_).run hgrounded
    k).session⟩
  intro i hi
  rw [hargs] at hi
  cases List.mem_singleton.1 hi
  exact .inr ⟨g, hmem, rfl⟩

end Grows

/-- What the same selection comes to in a state and in another one that has grown from it. -/
inductive Chosen (m m' : Machine) (p : NodeId) (m₁ m₁' : Machine) (r r' : Except Error Result) :
    Prop
  | failed (e : Error) (left : r = .error e) (right : r' = .error e)
  | completed (a : Result) (left : r = .ok a) (right : r' = .ok a)
    (bears : m.session.Bears m₁.session p) (bears' : m'.session.Bears m₁'.session p)
    (copies : m'.session.Copies m₁'.session m.session m₁.session)

section Select

variable {m m' : Machine} {generators : List Generator} {t : Target} {p : NodeId}
  {selector fragment : String} {g : Generator} {bodies : Bodies}
  (settled : m.settled = none) (target : m.session.target t = .node p)
  (lt : p < m.session.store.next) (isText : (m.session.store.get p).selector = .text selector)
  (closes : m.session.Closes (m.session.store.optionsOf p).className bodies)
  (body : bodies 1 (m.session.bodyOf g)) (hand : m.session.AtHand g) (hmem : g ∈ generators)
  (own : m.Grows m generators) (grown : m.Grows m' generators)
include settled target lt isText closes body hand hmem own grown

/-- Both enter the same body, on a rule set that was just made, and so the selection is completed in
the one state if it is in the other. -/
theorem select_corresponds (tag tag' : Tag) :
    m.Corresponds m' tag tag' (selection t fragment g) (selection t fragment g) (Chosen m m' p) := by
  have hext := grown.session.extend
  obtain ⟨added, hget⟩ := grown.session.older p lt
  have lt' : p < m'.session.store.next := Nat.lt_of_lt_of_le lt grown.session.next_le
  have target' : m'.session.target t = .node p := (hext.target grown.calls t).trans target
  have isText' : (m'.session.store.get p).selector = .text selector := by
    rw [hget]
    exact isText
  have hid : (m'.session.store.get p).options = (m.session.store.get p).options := by rw [hget]
  have hoptionsOf : m'.session.store.optionsOf p = m.session.store.optionsOf p := by
    unfold Store.optionsOf
    rw [hid, grown.session.options]
  obtain ⟨R, hr, hR, hnew, hoptions⟩ := m.session.fill_sprouted (selector ++ fragment) lt
    (m.session.stamps + 1) (.select m.session.store.next (.text fragment) none) g
  obtain ⟨L, hl, hL, hnew', hoptions'⟩ := m'.session.fill_sprouted (selector ++ fragment) lt'
    (m'.session.stamps + 1) (.select m'.session.store.next (.text fragment) none) g
  rw [hoptionsOf] at hL
  rw [hext.bodyOf hand.knows] at hl
  let γ : Ground := .ofNew L R hL.lt hR.lt leading_empty (.select (.text fragment) none)
    (.select (.text fragment) none) tag' tag m'.session.calls m.session.calls bodies
  have hf : γ.Fit True :=
    hL.fit hR ((Session.Equips.of_extends hext).compatible closes)
      (congrArg Datum.bare (Datum.led_empty _).symm) (fun m hm => nomatch hm) leading_empty _ _
  have habreast := hf.abreast rfl rfl
    ((Session.begin_select target' isText' fragment g).trans hl)
    ((Session.begin_select target isText fragment g).trans hr) body grown.settled settled
  refine (Ground.corresponds (R := fun P' P r' r => Chosen m m' p P P' r r') hf habreast
    (fun i hi => ?_) rfl rfl fun P' P r' r ho hset' hset => ?_).symm
  · -- from above both rule sets the same is visible as from their parent at the start
    obtain ⟨subjects, hframes⟩ := hi.frames
    obtain ⟨hsub, hsub'⟩ := hframes.outer_subset
    have hgrows' : m'.session.Grows (run i (m'.perform tag' (selection t fragment g))).session :=
      hL.grows hoptions' hi.twins.left hsub hi.twins.store.next_le hi.twins.store.options
        hi.twins.store.older
    have hgrows : m.session.Grows (run i (m.perform tag (selection t fragment g))).session :=
      hR.grows hoptions hi.twins.right hsub' hi.twins.store.grown hi.twins.store.options'
        hi.twins.store.older'
    have ha := Session.alive_of_target target
    have left (name : String) := (grown.session.trans hgrows').seesAbove_eq
      (grown.run_perform hand hmem tag' t fragment i).2
      (hi.twins.store.root.parent.trans (congrArg RuleSet.parent hnew')) lt ha name
    have right (name : String) := hgrows.seesAbove_eq
      (own.run_perform hand hmem tag t fragment i).2
      (hi.twins.store.root'.parent.trans (congrArg RuleSet.parent hnew)) lt ha name
    exact ⟨fun name hs => ((left name).trans (right name).symm).trans hs,
      fun _ name => (left name).trans (right name).symm⟩
  · cases ho with
    | raised e settled settled' =>
      cases hset'.symm.trans settled
      cases hset.symm.trans settled'
      exact .failed e rfl (congrArg Except.error (Error.led_empty e))
    | @given σ' σ _ _ _ _ twins left right =>
      cases hset'.symm.trans left.settled
      cases hset.symm.trans right.settled
      cases left.finish
      cases right.finish
      have hs := twins.store
      refine .completed _ rfl rfl ?_ ?_ ?_
      · rw [right.session]
        exact hR.bears hoptions twins.right hs.grown hs.options' hs.older'
          (hs.root'.parent.trans (congrArg RuleSet.parent hnew)) lt
      · rw [left.session]
        exact hL.bears hoptions' twins.left hs.next_le hs.options hs.older
          (hs.root.parent.trans (congrArg RuleSet.parent hnew')) lt'
      · rw [left.session, right.session]
        exact Session.copies_of_mirrors hL hR hnew' (hid ▸ hnew) lt lt' hs

end Select

/-- Once a selection is completed, the state has grown. -/
theorem Grows.of_performs {m m₁ : Machine} {generators : List Generator} {t : Target}
    {p : NodeId} {fragment : String} {g : Generator} {tag : Tag} {r : Except Error Result}
    (own : m.Grows m generators) (hand : m.session.AtHand g) (hmem : g ∈ generators)
    (hp : m.Performs tag (selection t fragment g) r m₁) (hb : m.session.Bears m₁.session p) :
    m.Grows { m₁ with settled := .none } generators := by
  obtain ⟨k, rfl, -, -, -⟩ := hp
  obtain ⟨hgrounded, hclosed⟩ := own.run_perform hand hmem tag t fragment k
  exact ⟨rfl, hb.grows, hb.calls, hgrounded.session, hclosed⟩

/-- A state of a script has grown from itself, so to speak. -/
theorem grows_refl (s : Script) (k : Nat) {generators : List Generator}
    (settled : (run k (load s)).settled = none)
    (hands : ∀ g ∈ generators, (run k (load s)).session.AtHand g) :
    (run k (load s)).Grows (run k (load s)) generators where
  settled := settled
  session := {
    extend := .refl _
    calls := List.Subset.refl _
    next_le := Nat.le_refl _
    options := rfl
    older := fun n _ => ⟨[], by rw [List.append_nil]⟩ }
  calls := rfl
  grounded := (grounded s k).session
  closed := Session.closed_passed (made_host s k) hands

end Machine

end RuleTree
