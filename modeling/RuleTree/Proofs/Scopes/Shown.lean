import RuleTree.Proofs.Scopes.Matching

/-!
# What is shown of the values of two runs

A value shows a scope only if a rule set is shown by its label, and it is shown so only inside of
another value.

* `Datum.unnested`: a value that is a rule set itself, or refers to none;
* `Appearance.Tallies`: rule sets have the same blocks, but maybe other labels;
* `Datum.Tallies.shownAlike`: then an unnested value looks the same in both runs;
* `Datum.Tallies.fragmentOf`, `Datum.Tallies.declarationsOf`: so fragments and declarations that
  show only such values are the same;
* `Datum.Tallies.told`: what is told of any value is the same if what is told of rule sets is.
-/

namespace RuleTree

/-- Whether an object is a rule set. -/
def Identity.isNode : Identity → Bool
  | .node _ => true
  | _ => false

/-- Whether a value is a rule set, or refers to none. -/
def Datum.unnested : Datum → Bool
  | .node _ => true
  | d => d.identities.all fun i => !i.isNode

/-- Whether a method spells its argument. -/
def Method.spells : Method → Bool
  | joined _ => true
  | kind => true
  | shortcut s => s.argument == .value
  | _ => false

/-- The appearances of the same objects in two runs. -/
structure Appearance.Tallies (look look' : Appearance) : Prop where
  host : look.host = look'.host
  blocks : look.blocks = look'.blocks

variable {μ : Matching} {d d' : Datum} {look look' : Appearance}

theorem Identity.Tallies.isNode {i i' : Identity} (h : i.Tallies μ i') : i.isNode = i'.isNode := by
  cases h <;> rfl

namespace Datum

/-- An unnested value looks the same wherever hosts and the blocks of rule sets do. -/
theorem shownAlike_of_unnested (hu : d.unnested = true) (h : look.Tallies look') :
    d.ShownAlike look look' := by
  refine ⟨fun id _ => congrFun h.host id, fun n hn => ⟨?_, congrFun h.blocks n⟩⟩
  have refers (hall : (d.identities.all fun i => !i.isNode) = true) : d = .node n := by
    simpa [Identity.isNode] using List.all_eq_true.1 hall _ hn
  cases d with
  | node id =>
    cases List.mem_singleton.1 hn
    rfl
  | _ => exact refers hu

namespace Tallies

theorem unnested (h : d.Tallies μ d') : d.unnested = d'.unnested := by
  have key : (d.identities.all fun i => !i.isNode) = d'.identities.all fun i => !i.isNode :=
    all_of_forall₂ h.identities fun _ _ hi => by rw [hi.isNode]
  cases h with
  | node id => rfl
  | _ => exact key

/-- What does not look at numbers is the same for unnested values. -/
theorem eq_of {β : Type} {F : Appearance → Datum → β} (h : d.Tallies μ d')
    (hu : d.unnested = true) (hl : look.Tallies look')
    (hF : ∀ look look' d, d.ShownAlike look look' → F look (Datum.bare d) = F look' d) :
    F look d = F look' d' :=
  (shownAlike_of_unnested hu ⟨rfl, rfl⟩).eq_of (shownAlike_of_unnested (h.unnested ▸ hu) hl)
    h.bare hF

/-- The text of a list of selectors shows no labels at all. -/
theorem selectorList (h : d.Tallies μ d') (hl : look.Tallies look') :
    RuleTree.selectorList look d = RuleTree.selectorList look' d' := by
  rw [← selectorList_bare look look d fun _ _ => rfl, h.bare,
    selectorList_bare look look' d' fun n _ => congrFun hl.blocks n]

/-- The fragments of the same argument are the same, if a method that spells it spells no labels. -/
theorem fragmentOf (h : d.Tallies μ d') (hl : look.Tallies look') (m : Method)
    (hu : m.spells = true → d.unnested = true) :
    Both (Datum.Tallies μ) (m.fragmentOf look d) (m.fragmentOf look' d') := by
  have text {x y : Except Error String} (hxy : x = y) (f : String → String) :
      Both (Datum.Tallies μ) (x.map fun t => .text (f t)) (y.map fun t => .text (f t)) :=
    .map_of_eq hxy fun _ => .text _
  cases m with
  | fragment => exact .ok h
  | joined c => exact text (h.eq_of (hu rfl) hl spelled_bare) _
  | kind => exact text (h.eq_of (hu rfl) hl spelled_bare) _
  | descendant => exact .ok (.text _)
  | shortcut s =>
    refine text (x := s.fragment look d) (y := s.fragment look' d') ?_ id
    unfold Shortcut.fragment Shortcut.format
    cases hs : s.argument with
    | none => rfl
    | value => rw [h.eq_of (hu (by simp [Method.spells, hs])) hl spelled_bare]
    | selectors => rw [h.selectorList hl]

/-- The declarations of the same values are the same if none of these shows a label. -/
theorem declarationsOf {k k' : Table Datum} (h : d.Tallies μ d') (hk : k.Rel (Datum.Tallies μ) k')
    (hl : look.Tallies look')
    (hu : ∀ es, d.entries? = some es → ∀ e ∈ es, e.2.unnested = true)
    (hku : ∀ e ∈ k.entries, e.2.unnested = true) :
    RuleTree.declarationsOf look (some d) k = RuleTree.declarationsOf look' (some d') k' := by
  have hu' (es' : List (Datum × Datum)) (hes' : d'.entries? = some es') :
      ∀ e ∈ es', e.2.unnested = true := by
    have he := h.entries?
    rw [hes'] at he
    generalize hes : d.entries? = es at he
    cases he with
    | some he =>
      have := hu _ hes
      rw [← List.all_eq_true] at this ⊢
      rwa [← all_of_forall₂ he fun _ _ hp => hp.right.unnested]
  have hku' : ∀ e ∈ k'.entries, e.2.unnested = true := by
    rw [← List.all_eq_true] at hku ⊢
    rwa [← all_of_forall₂ hk.entries fun _ _ hp => hp.right.unnested]
  have hb : k.map Datum.bare = k'.map Datum.bare := by
    refine Table.ext (eq_of_forall₂ (List.rel_map (fun e e' hp => ?_) hk.entries))
    rw [hp.left, hp.right.bare]
  exact declarationsOf_eq h.bare hb
    ⟨fun es he e hm => shownAlike_of_unnested (hu es he e hm) ⟨rfl, rfl⟩,
      fun e hm => shownAlike_of_unnested (hku e hm) ⟨rfl, rfl⟩⟩
    ⟨fun es he e hm => shownAlike_of_unnested (hu' es he e hm) hl,
      fun e hm => shownAlike_of_unnested (hku' e hm) hl⟩

/-! ### Telling -/

variable {views views' : Views}

theorem picture (h : d.Tallies μ d') (hh : views.host = views'.host)
    (hn : views.node = views'.node) (hf : views.form = views'.form) :
    d.picture views = d'.picture views' := by
  rw [← picture_renumber rfl d (fun _ _ => rfl) fun _ _ => rfl]
  show d.bare.picture views = _
  rw [h.bare]
  exact picture_renumber hf d' (fun id _ => congrFun hh id) fun n _ => congrFun hn n

/-- The same is told of values that are the same but for numbers. -/
theorem told (h : d.Tallies μ d') (hh : views.host = views'.host)
    (hn : views.node = views'.node) (hf : views.form = views'.form) :
    d.told views = d'.told views' := by
  have key := h.picture hh hn hf
  cases h with
  | answer fields => rfl
  | _ => exact key

end Tallies

end Datum

end RuleTree
