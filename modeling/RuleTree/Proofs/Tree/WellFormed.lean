import RuleTree.Proofs.History.Lineage
import RuleTree.Session.Liveness
import Mathlib.Data.List.Chain
import Mathlib.Logic.Relation

/-!
# Well-formed trees

The children of rule sets make up trees at any moment of a script, inside of generators and after
failures as well.

* `Store.Lists`: one rule set lists another as a child;
* `fragmentIn`, `fragmentText`: the fragment by which a rule set was selected;
* `SelectedOn`, `Store.Recorded.selector_of_chain`: having been selected on another, and the
  selectors down a chain of selections;
* `Event.givesText`: selectors that are given outright are texts;
* `Session.WellFormed`: no rule set is listed twice or below itself; a child knows its parent and
  shares its options; its selector is that of the parent and the fragment, and so on down every
  path;
* `Machine.wellFormed`: every state of a script is well formed, and a selector never changes.
-/

namespace RuleTree

/-- What is appended to a text is a text. -/
theorem Datum.exists_text_of_plus {stamp : Stamp} {t : String} {f d : Datum}
    (h : plus stamp (.text t) f = .ok d) : ∃ u, f = .text u ∧ d = .text (t ++ u) := by
  cases f with
  | text u =>
    cases h
    exact ⟨u, rfl, rfl⟩
  | _ => cases h

/-- Whether a value is a text. -/
def Datum.isText : Datum → Bool
  | text _ => true
  | _ => false

theorem Datum.exists_of_isText {d : Datum} (h : d.isText = true) : ∃ t, d = .text t := by
  cases d with
  | text t => exact ⟨t, rfl⟩
  | _ => cases h

/-- Whether a selector that is given outright, and not made of a fragment, is a text. -/
def Event.givesText : Event → Bool
  | planted _ selector _ _ => selector.isText
  | sprouted _ _ selector _ none => selector.isText
  | _ => true

/-- The fragment by which a rule set was selected. -/
def fragmentIn (h : List Event) (c : NodeId) : Option Datum :=
  h.findSome? fun
    | .sprouted n _ _ _ fragment => if n = c then fragment else none
    | _ => none

/-- The text of the fragment by which a rule set was selected. -/
def fragmentText (h : List Event) (c : NodeId) : String :=
  match fragmentIn h c with
  | some (.text f) => f
  | _ => ""

/-- One rule set was made by selecting a fragment on another. -/
def SelectedOn (h : List Event) (p c : NodeId) : Prop :=
  ∃ selector host fragment, .sprouted c p selector host (some fragment) ∈ h

namespace Store

/-- One rule set lists another as a child. -/
def Lists (s : Store) (p c : NodeId) : Prop := c ∈ (s.get p).children

theorem Lists.lt {s : Store} {p c : NodeId} (h : s.Lists p c) : p < c :=
  Forest.lt_of_mem_children h

theorem Lists.parent {s : Store} {p c : NodeId} (h : s.Lists p c) : (s.get c).parent = some p :=
  Forest.parent_of_mem_children h

/-- What is below a rule set is younger. -/
theorem lt_of_transGen {s : Store} {p c : NodeId} (h : Relation.TransGen s.Lists p c) : p < c := by
  induction h with
  | single h => exact h.lt
  | tail _ h ih => exact Nat.lt_trans ih h.lt

/-- Only one rule set can list another. -/
theorem nodup_flatMap_children {s : Store} (single : ∀ p, (s.get p).children.Nodup)
    {ps : List NodeId} (hps : ps.Nodup) : (ps.flatMap fun p => (s.get p).children).Nodup := by
  refine List.nodup_flatMap.2 ⟨fun p _ => single p, hps.imp fun {p q} hpq => ?_⟩
  intro c (hp : s.Lists p c) (hq : s.Lists q c)
  exact hpq (Option.some.inj (hp.parent.symm.trans hq.parent))

namespace Recorded

variable {s : Store} {h : List Event}

/-- The fragment of a rule set is the one in the event that made it. -/
theorem fragmentIn_eq (hr : s.Recorded h) {c p : NodeId} {selector f : Datum}
    {host : Option Datum} (he : .sprouted c p selector host (some f) ∈ h) :
    fragmentIn h c = some f := by
  unfold fragmentIn
  cases hf : h.findSome? _ with
  | none =>
    have hn := List.findSome?_eq_none_iff.1 hf _ he
    simp at hn
  | some g =>
    obtain ⟨e, hm, hg⟩ := List.exists_of_findSome?_eq_some hf
    split at hg
    · split at hg
      · rename_i hc
        subst hc
        cases hr.made_unique hm he rfl rfl
        exact hg.symm
      · cases hg
    · cases hg

/-- The selector of a selected rule set is that of its parent and the fragment. -/
theorem selector_of_sprouted (hr : s.Recorded h) {c p : NodeId} {d f : Datum}
    {host : Option Datum} (he : .sprouted c p d host (some f) ∈ h) {t : String}
    (ht : (s.get p).selector = .text t) :
    ∃ u, f = .text u ∧ (s.get c).selector = .text (t ++ u) := by
  obtain ⟨hs, -, -, hf⟩ := hr.holds _ he
  obtain ⟨-, stamp, hplus⟩ := hf f rfl
  rw [ht] at hplus
  obtain ⟨u, hu, hd⟩ := Datum.exists_text_of_plus hplus
  exact ⟨u, hu, hs.trans hd⟩

/-- Down a chain of selections selectors grow by the fragments. -/
theorem selector_of_chain (hr : s.Recorded h) (path : List NodeId) {r : NodeId} {t : String}
    (ht : (s.get r).selector = .text t) (hp : List.IsChain (SelectedOn h) (r :: path)) :
    (s.get (path.getLastD r)).selector =
      .text (t ++ String.join (path.map (fragmentText h))) := by
  induction path generalizing r t with
  | nil => simpa using ht
  | cons c path ih =>
    obtain ⟨⟨_, _, _, he⟩, hp⟩ := List.isChain_cons_cons.1 hp
    obtain ⟨u, rfl, hc⟩ := hr.selector_of_sprouted he ht
    have hu : fragmentText h c = u := by rw [fragmentText, hr.fragmentIn_eq he]
    rw [List.getLastD_cons, ih hc hp, List.map_cons, hu, String.join_cons, String.append_assoc]

/-- If all selectors that are given outright are texts, then all selectors are. -/
theorem exists_text (hr : s.Recorded h) (texts : ∀ e ∈ h, e.givesText = true) {n : NodeId}
    (hn : n < s.next) : ∃ t, (s.get n).selector = .text t := by
  -- the parent of a selected rule set is older, and its selector comes first
  induction n using Nat.strongRecOn with
  | ind n ih =>
    have hm : n ∈ h.filterMap Event.made? := by
      rw [hr.made]
      exact List.mem_range.2 hn
    obtain ⟨e, he, hen⟩ := List.mem_filterMap.1 hm
    have ht := texts e he
    have hh := hr.holds e he
    cases e with
    | planted m selector host o =>
      cases hen
      exact Datum.exists_of_isText (hh.1 ▸ ht)
    | sprouted m p selector host fragment =>
      cases hen
      cases fragment with
      | none => exact Datum.exists_of_isText (hh.1 ▸ ht)
      | some f =>
        obtain ⟨hp, stamp, hplus⟩ := hh.2.2.2 f rfl
        obtain ⟨t, hpt⟩ := ih p hp (Nat.lt_trans hp hn)
        rw [hpt] at hplus
        obtain ⟨u, -, hd⟩ := Datum.exists_text_of_plus hplus
        exact ⟨_, hh.1.trans hd⟩
    | _ => cases hen

end Recorded

/-- A child has the options of its parent. -/
theorem Owned.options_of_lists {s : Store} {h : List Event} {pending : List NodeId}
    (ho : s.Owned h pending) {p c : NodeId} (hl : s.Lists p c) :
    (s.get c).options = (s.get p).options := by
  obtain ⟨-, q, d, stamp, -, -, hq, hopts, -⟩ := ho.of_made (ho.listed p c hl)
  cases hq.symm.trans hl.parent
  exact hopts

/-- A child was selected on its parent. -/
theorem Owned.sprouted_of_lists {s : Store} {h : List Event} {pending : List NodeId}
    (ho : s.Owned h pending) {p c : NodeId} (hl : s.Lists p c) :
    ∃ f, .sprouted c p (s.get c).selector none (some f) ∈ h := by
  obtain ⟨-, q, f, -, he, -, hq, -⟩ := ho.of_made (ho.listed p c hl)
  cases hq.symm.trans hl.parent
  exact ⟨f, he⟩

/-- The selector of a child is that of its parent and the fragment that it was selected by. -/
theorem Owned.selector_of_lists {s : Store} {h : List Event} {pending : List NodeId}
    (ho : s.Owned h pending) {p c : NodeId} (hl : s.Lists p c) {t : String}
    (ht : (s.get p).selector = .text t) : ∃ f, fragmentIn h c = some (.text f) ∧
      .sprouted c p (.text (t ++ f)) none (some (.text f)) ∈ h ∧
      (s.get c).selector = .text (t ++ f) := by
  obtain ⟨_, he⟩ := ho.sprouted_of_lists hl
  obtain ⟨f, rfl, hc⟩ := ho.recorded.selector_of_sprouted he ht
  exact ⟨f, ho.recorded.fragmentIn_eq he, hc ▸ he, hc⟩

/-- Down a path of children selectors grow by the fragments of the path. -/
theorem Owned.selector_of_path {s : Store} {h : List Event} {pending : List NodeId}
    (ho : s.Owned h pending) (path : List NodeId) {r : NodeId} {t : String}
    (ht : (s.get r).selector = .text t) (hp : List.IsChain s.Lists (r :: path)) :
    (s.get (path.getLastD r)).selector =
      .text (t ++ String.join (path.map (fragmentText h))) :=
  ho.recorded.selector_of_chain path ht (hp.imp fun _ _ hl =>
    let ⟨f, he⟩ := ho.sprouted_of_lists hl
    ⟨_, _, f, he⟩)

end Store

/-- Rule sets make up trees whose selectors are put together of fragments. -/
structure Session.WellFormed (σ : Session) (h : List Event) : Prop where
  /-- no rule set occurs twice in all lists of children taken together -/
  single : ((List.range σ.store.next).flatMap fun n => (σ.store.get n).children).Nodup
  /-- no rule set is below itself -/
  acyclic : ∀ n, ¬ Relation.TransGen σ.store.Lists n n
  parent : ∀ p c, σ.store.Lists p c → (σ.store.get c).parent = some p
  /-- the parent is found as long as it is alive -/
  parent? : ∀ p c, σ.store.Lists p c → σ.alive (.node p) = true → σ.parent? c = some p
  options : ∀ p c, σ.store.Lists p c → (σ.store.get c).options = (σ.store.get p).options
  /-- the selector of a child is that of its parent followed by the fragment of the selection that
  made the child -/
  selector : ∀ p c, σ.store.Lists p c → ∃ t f, (σ.store.get p).selector = .text t ∧
    fragmentIn h c = some (.text f) ∧
    .sprouted c p (.text (t ++ f)) none (some (.text f)) ∈ h ∧
    (σ.store.get c).selector = .text (t ++ f)
  /-- down a path of children nothing but fragments is appended -/
  path : ∀ r < σ.store.next, ∀ path : List NodeId, List.IsChain σ.store.Lists (r :: path) →
    ∃ t, (σ.store.get r).selector = .text t ∧ (σ.store.get (path.getLastD r)).selector =
      .text (t ++ String.join (path.map (fragmentText h)))

theorem Store.Owned.wellFormed_of_texts {σ : Session} {h : List Event} {pending : List NodeId}
    (ho : σ.store.Owned h pending) (texts : ∀ e ∈ h, e.givesText = true) : σ.WellFormed h where
  single := Store.nodup_flatMap_children ho.single List.nodup_range
  acyclic n hn := Nat.lt_irrefl n (Store.lt_of_transGen hn)
  parent p c hl := hl.parent
  parent? p c hl ha := by
    unfold Session.parent?
    rw [hl.parent, Option.filter_some, if_pos ha]
  options p c hl := ho.options_of_lists hl
  selector p c hl := by
    have hp := Nat.lt_trans hl.lt (Forest.lt_size_of_mem_children hl)
    obtain ⟨t, ht⟩ := ho.recorded.exists_text texts hp
    obtain ⟨f, hf, he, hc⟩ := ho.selector_of_lists hl ht
    exact ⟨t, f, ht, hf, he, hc⟩
  path r hr path hp := by
    obtain ⟨t, ht⟩ := ho.recorded.exists_text texts hr
    exact ⟨t, ht, ho.selector_of_path path ht hp⟩

namespace Machine

/-- What a rule set was made with stays in all later states. -/
theorem madeAs_run (m : Machine) (k : Nat) {n : NodeId} (hn : n < m.session.store.next) :
    (m.session.store.get n).MadeAs ((run k m).session.store.get n) :=
  (trail_history k m).madeAs hn

/-- Every state of a script is well formed as long as selectors that are given outright are texts,
and no selector ever changes. -/
theorem wellFormed (s : Script) (k : Nat)
    (texts : ∀ e ∈ history k (load s), e.givesText = true) :
    (run k (load s)).session.WellFormed (history k (load s)) ∧
      ∀ i ≤ k, ∀ n < (run i (load s)).session.store.next,
        ((run k (load s)).session.store.get n).selector =
          ((run i (load s)).session.store.get n).selector := by
  refine ⟨(owned s k).wellFormed_of_texts texts, fun i hi n hn => ?_⟩
  obtain ⟨j, rfl⟩ := Nat.exists_eq_add_of_le hi
  rw [run_add]
  exact (madeAs_run _ j hn).selector

end Machine

/-- A script that nests rule sets, loses one whose generator fails, and makes one that is never
listed. -/
def Script.nesting : Script where
  steps := [.mk (.build (.text "a") (.inline [
      .mk (.define (.enclosing 0) "k" (.text "v")) none none,
      .mk (.select (.enclosing 0) "select" (some (.text ":b")) (some (.inline [
        .mk (.select (.enclosing 0) "select" (some (.text ":c")) (some (.inline [
          .mk (.write (.enclosing 0) (.text "x;")) none none]))) none none]))) none none,
      .mk (.attempt [
        .mk (.select (.enclosing 0) "select" (some (.text ":d")) (some (.inline [
          .mk (.raise "lost") none none]))) none none]) none none])
    none [("emit_custom_properties", .bool true)]) (some "root") none,
    .mk (.construct (.text "e") (.inline []) none [] (some "root")) none none]
  generators := .empty
  logs := false

theorem Machine.wellFormed_nesting :
    (∀ e ∈ history 22 (load .nesting), e.givesText = true) ∧
      (run 22 (load .nesting)).session.WellFormed (history 22 (load .nesting)) :=
  have texts : ∀ e ∈ history 22 (load .nesting), e.givesText = true := by decide +kernel
  ⟨texts, (wellFormed .nesting 22 texts).1⟩

end RuleTree
