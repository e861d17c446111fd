import RuleTree.Proofs.Rebuilding.Compared
import RuleTree.Proofs.Rebuilding.Roots

/-!
# A selection against a build

* `Session.begin_select`: the beginning of a selection;
* `Session.Nests`: a rule set has got a child that is the same as one that was built beside it;
* `Ground.Twins.nests`: attached to its parent, a rule set that was just made is such a child;
* `Machine.selects_nesting`: a selection by a self-contained generator nests what a build for the
  whole selector gives, as long as no statement of the build fails.
-/

namespace RuleTree

namespace Session

variable {σ σ₁ : Session}

/-- A selection by a text under a rule set whose selector is one. -/
theorem begin_select {t : Target} {p : NodeId} {selector : String} (ht : σ.target t = .node p)
    (hs : (σ.store.get p).selector = .text selector) (fragment : String) (g : Generator) :
    σ.begin (.select t "select" (some (.text fragment)) (some (.generator g))) =
      fill { σ with stamps := σ.stamps + 1 } (σ.store.sprout p (.text (selector ++ fragment)) none)
        σ.store.next (.select σ.store.next (.text fragment) none) (.generator g) := by
  have hm : Method.named "select" = .ok .fragment := rfl
  unfold begin onNode
  simp only [ht]
  unfold callMethod
  simp only [hm]
  show σ.selectBy p .fragment (.text fragment) (some (.generator g)) = _
  have hplus : (σ.store.get p).selector.plus σ.stamps (.text fragment) =
      .ok (.text (selector ++ fragment)) := by
    rw [hs]
    rfl
  unfold selectBy select selectFrom
  simp only [Method.fragmentOf, hplus]
  rfl

/-- Attached to its parent, a rule set has the same tree. -/
theorem SameTree.attach {σ' : Session} {n n' p : NodeId} (h : σ.SameTree n σ' n')
    (hp : (σ.store.get n).parent = some p)
    (hw : ∀ x ∈ σ.store.forest.preorder n, (σ.store.get x).Written) :
    SameTree { σ with store := σ.store.attach n } n σ' n' := by
  have hget (x : NodeId) (hx : x ∈ σ.store.forest.preorder n) :
      (σ.store.attach n).get x = σ.store.get x := by
    have hlt : p < x := Forest.preorder_closed (P := (p < ·)) (Forest.lt_of_parent hp)
      (fun _ _ hp hc => Nat.lt_trans hp (Forest.lt_of_mem_children hc)) hx
    rw [Store.get_attach, hp, if_neg fun he => Nat.ne_of_lt hlt (Option.some.inj he)]
  have hblocks := Store.blocks_congr hget rfl hw σ.hostName σ.hostName
  exact {
    shape := (Store.shape_congr hget).trans h.shape
    css := (congrArg (Except.map String.join) hblocks).trans h.css }

/-- A rule set has got one more child, which was made since, and nothing else has changed. The child
is the same as a rule set of another session. -/
structure Nests (σ σ₁ : Session) (p n : NodeId) (σ' : Session) (n' : NodeId) : Prop where
  made : σ.store.next ≤ n
  parent : σ₁.store.get p = { σ.store.get p with children := (σ.store.get p).children ++ [n] }
  options : σ₁.store.optionsOf p = σ.store.optionsOf p
  others : ∀ x < σ.store.next, x ≠ p → σ₁.store.get x = σ.store.get x
  same : σ₁.SameTree n σ' n'

/-- What was made under a rule set since, is attached to it, and nothing else has changed. -/
theorem nests_attach (σ₁ : Session) {σ' : Session} {p n n' : NodeId} (made : σ.store.next ≤ n)
    (older : ∀ x < σ.store.next, σ₁.store.get x = σ.store.get x)
    (options : σ₁.store.options = σ.store.options) (lt : p < σ.store.next)
    (parent : (σ₁.store.get n).parent = some p) (same : σ₁.SameTree n σ' n')
    (written : ∀ x ∈ σ₁.store.forest.preorder n, (σ₁.store.get x).Written) :
    σ.Nests { σ₁ with store := σ₁.store.attach n } p n σ' n' where
  made := made
  parent := by
    show (σ₁.store.attach n).get p = _
    rw [Store.get_attach, if_pos parent, older p lt]
  options := by
    show (σ₁.store.attach n).optionsOf p = _
    unfold Store.optionsOf
    rw [Store.get_attach, if_pos parent, older p lt,
      show (σ₁.store.attach n).options = _ from options]
  others := fun x hx hne => by
    show (σ₁.store.attach n).get x = _
    rw [Store.get_attach, parent, if_neg fun he => hne (Option.some.inj he).symm, older x hx]
  same := same.attach parent written

end Session

namespace Machine

/-- Under a rule set whose selector is a text, a selection is made by a text and a self-contained
generator. If a rule set for both texts together can be built by it with equal options without any
statement failing, then the selection succeeds without any statement failing, and nests one that is
the same. -/
theorem selects_nesting (s : Script) (k : Nat) {t : Target} {p : NodeId} {selector : String}
    {fragment : String} {g : Generator} {options : List (String × Datum)}
    (settled : (run k (load s)).settled = none)
    (target : (run k (load s)).session.target t = .node p)
    (isText : ((run k (load s)).session.store.get p).selector = .text selector)
    (contained : (run k (load s)).session.SelfContained
      ((run k (load s)).session.store.optionsOf p).className ((run k (load s)).session.bodyOf g))
    (merged : OptionSet.merge (Session.optionsDatum (.ofList options)) =
      .ok ((run k (load s)).session.store.optionsOf p))
    {tag' : Tag} {a : Result} {m₁' : Machine} (standalone : (run k (load s)).Cleanly tag'
      (.build (.text (selector ++ fragment)) (.generator g) none options) (.ok a) m₁') (tag : Tag) :
    ∃ n n' m₁, a = .value (.node n') ∧
      (run k (load s)).Cleanly tag
        (.select t "select" (some (.text fragment)) (some (.generator g)))
        (.ok (.value (.text fragment))) m₁ ∧
      (run k (load s)).session.Nests m₁.session p n m₁'.session n' := by
  have hlt := lt_of_target s k target
  generalize run k (load s) = m at *
  obtain ⟨bodies, closes, body⟩ := contained
  obtain ⟨L, hl, hL, hnew, hoptions⟩ := m.session.fill_sprouted (selector ++ fragment) hlt
    (m.session.stamps + 1) (.select m.session.store.next (.text fragment) none) g
  obtain ⟨R, hr, hR, hparent'⟩ := m.session.fill_planted (selector ++ fragment) none
    (m.session.store.optionsOf p) (.build m.session.store.next .node) g
  have hf : (Ground.ofNew L R hL.lt hR.lt leading_empty (.select (.text fragment) none)
      (.build .node) tag tag' m.session.calls m.session.calls bodies).Fit False :=
    hL.fit hR (.refl closes) (congrArg Datum.bare (Datum.led_empty _).symm)
      (fun m hm => nomatch hm) leading_empty (.select (.text fragment) none) (.build .node)
  obtain ⟨res, m₁, σ, σ₁, ha, hp, twins, left⟩ := cleanly_of_built hf
    ((Session.begin_select target isText fragment g).trans hl)
    ((Session.begin_build merged _ g).trans hr) hparent' body settled settled standalone
  cases left.finish
  have hs := twins.sameTree hf hL.blank rfl
  refine ⟨m.session.store.next, m.session.store.next, m₁, ha, hp, ?_⟩
  rw [left.session]
  refine Session.nests_attach { σ with calls := m.session.calls } (Nat.le_refl _) (fun x hx => ?_)
    (twins.store.options.trans hoptions) hlt
    (twins.store.root.parent.trans (congrArg RuleSet.parent hnew))
    ⟨hs.shape, hs.css⟩ fun x => twins.written hf hL.blank
  exact (twins.store.older x (Nat.lt_trans hx hL.lt) (Nat.ne_of_lt hx)).trans (hL.older x hx)

end Machine

/-- A script that builds a rule set with a custom property. -/
def Script.defining : Script where
  steps := [.mk (.build (.text "div") (.inline [
    .mk (.define (.enclosing 0) "l" (.text "w")) none none]) none []) (some "r") none]
  generators := .ofList [("nest", Body.nesting)]
  logs := true

theorem Machine.selects_nesting_defining : ∃ (n n' : NodeId) (m₁ m₁' : Machine),
    ((run 5 (load .defining)).session.store.get 0).scope.find? "l" = some "w" ∧
    (run 5 (load .defining)).Cleanly ⟨[], none, none⟩
      (.select (.handle "r") "select" (some (.text " p")) (some (.generator (.named "nest"))))
      (.ok (.value (.text " p"))) m₁ ∧
    (run 5 (load .defining)).session.Nests m₁.session 0 n m₁'.session n' := by
  have hbody : (run 5 (load .defining)).session.bodyOf (.named "nest") = Body.nesting :=
    bodyOf_named .defining 5 "nest"
  have hextra : ((run 5 (load .defining)).session.store.optionsOf 0).extra = .empty :=
    Table.ext (List.isEmpty_iff.1 (by decide +kernel))
  obtain ⟨a, hfresh⟩ := cleanly_of_run (run 5 (load .defining)) ⟨[], none, none⟩
    (.build (.text ("div" ++ " p")) (.generator (.named "nest")) none
      ((run 5 (load .defining)).session.store.optionsOf 0).known) 6 (by decide +kernel)
    (by decide +kernel) (by decide +kernel) (by decide +kernel)
  obtain ⟨n, n', m₁, -, hp, hn⟩ := selects_nesting .defining 5 (t := .handle "r") (p := 0)
    (g := .named "nest") (Option.isNone_iff_eq_none.1 (by decide +kernel))
    (Session.target_handle (by decide +kernel)) (by with_unfolding_all rfl)
    (hbody ▸ Session.selfContained_nesting _ _) (OptionSet.merge_known hextra)
    hfresh ⟨[], none, none⟩
  exact ⟨n, n', m₁, _, by decide +kernel, hp, hn⟩

end RuleTree
