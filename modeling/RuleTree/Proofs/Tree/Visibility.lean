import Mathlib.Logic.Relation
import RuleTree.Proofs.History.Exact
import RuleTree.Proofs.Sheets.Filing
import RuleTree.Proofs.Tree.Preorder
import RuleTree.Session.Begin

/-!
# Custom properties that are visible

* `Session.Above`: a rule set and those above it, along parents that are alive;
* `Session.mem_chain_iff`, `Session.chain_descending`: the chain is made up of these, and meets none
  twice;
* `Session.Defines`, `Session.Defines.sees`: properties defined on one rule set are none of the
  business of those that it does not stand above;
* `Session.alive_of_target`, `Session.prefix_chain`: what is held is alive, and so is every rule set
  on the way down from it, which the chain goes up again;
* `Session.ResolvesScope`, `Session.resolvesScope`: which properties can be referred to.
-/

namespace RuleTree

namespace Session

variable {σ σ' : Session} {n m : NodeId}

/-! ### The chain -/

/-- Standing above a rule set, or being it: reached from it by going to the parent again and again,
as long as the parent is alive. -/
def Above (σ : Session) : NodeId → NodeId → Prop :=
  Relation.ReflTransGen fun a b => σ.parent? a = some b

theorem lt_of_parent? {p : NodeId} (h : σ.parent? n = some p) : p < n :=
  Forest.lt_of_parent (parent_of_parent? h)

theorem Above.le (h : σ.Above n m) : m ≤ n := by
  induction h with
  | refl => exact Nat.le_refl n
  | tail _ hp ih => exact Nat.le_trans (Nat.le_of_lt (lt_of_parent? hp)) ih

theorem mem_chain_iff : m ∈ σ.chain n ↔ σ.Above n m := by
  induction n using Nat.strongRecOn with
  | ind n ih =>
    rw [chain_eq_cons, List.mem_cons, Above, Relation.ReflTransGen.cases_head_iff]
    refine or_congr eq_comm ?_
    cases hp : σ.parent? n with
    | none => simp
    | some p =>
      have hm : m ∈ σ.chain p ↔ Relation.ReflTransGen (fun a b => σ.parent? a = some b) p m :=
        ih p (lt_of_parent? hp)
      simpa using hm

/-- Going up, rule sets get older, so that the chain ends. -/
theorem chain_descending (σ : Session) (n : NodeId) : (σ.chain n).Pairwise (· > ·) := by
  induction n using Nat.strongRecOn with
  | ind n ih =>
    rw [chain_eq_cons]
    cases hp : σ.parent? n with
    | none => simp
    | some p =>
      have hlt := lt_of_parent? hp
      exact List.pairwise_cons.2
        ⟨fun q hq => Nat.lt_of_le_of_lt (mem_chain_iff.1 hq).le hlt, ih p hlt⟩

/-- A property is visible if a rule set of the chain defines it. -/
theorem sees_iff {name : String} : σ.sees n name = true ↔
    ∃ m, σ.Above n m ∧ name ∈ (σ.store.get m).scope.keys := by
  unfold sees
  rw [List.any_eq_true]
  exact exists_congr fun m => and_congr mem_chain_iff (Table.contains_iff ..)

/-- Neither what is beneath a rule set nor another one under its parent stands above it. -/
theorem not_above_of_beside (hne : m ≠ n) (h : m ∈ σ.store.forest.preorder n ∨
    ∃ p, (σ.store.get n).parent = some p ∧ (σ.store.get m).parent = some p) : ¬ σ.Above n m := by
  intro ha
  rcases h with hm | ⟨p, hn, hm⟩
  · have hle : n ≤ m := Forest.preorder_closed (P := fun m => n ≤ m) (Nat.le_refl n)
      (fun _ _ hp hc => Nat.le_trans hp (Nat.le_of_lt (Forest.lt_of_mem_children hc))) hm
    exact hne (Nat.le_antisymm ha.le hle)
  · rcases Relation.ReflTransGen.cases_head ha with rfl | ⟨q, hq, ha⟩
    · exact hne rfl
    · cases hn.symm.trans (parent_of_parent? hq)
      exact absurd (Forest.lt_of_parent hm) (Nat.not_lt.2 (Above.le ha))

/-! ### Properties defined elsewhere -/

/-- Having come about by defining properties on a rule set, or by trying to. -/
inductive Defines (m : NodeId) : Session → Session → Prop
  | refl (σ : Session) : Defines m σ σ
  | step {σ σ₁ σ₂ : Session} {t : Target} {name : String} {d : Datum} {r : Except Error Result}
    (target : σ.target t = .node m) (begin_eq : σ.begin (.define t name d) = .done σ₁ r)
    (rest : Defines m σ₁ σ₂) : Defines m σ σ₂

/-- Defining a property changes the scope of the rule set at most. -/
theorem eq_of_begin_define {t : Target} {name : String} {d : Datum} {r : Except Error Result}
    (ht : σ.target t = .node m) (hb : σ.begin (.define t name d) = .done σ' r) :
    σ' = σ ∨ ∃ text,
      σ' = { σ with store := { σ.store with forest := σ.store.forest.define m name text } } := by
  have he : σ.begin (.define t name d) = σ.changeStore (σ.store.define σ.appearance m name d)
      fun s => .scope (s.get m).scope.entries := by
    show σ.onNode t _ = _
    unfold onNode
    rw [ht]
  rw [he] at hb
  unfold Store.define at hb
  cases hp : propertyValue σ.appearance d with
  | error e =>
    rw [hp] at hb
    cases hb
    exact .inl rfl
  | ok text =>
    rw [hp] at hb
    cases hb
    exact .inr ⟨text, rfl⟩

/-- What is alive does not depend on scopes. -/
theorem living_define (σ : Session) (m : NodeId) (name text : String) :
    ({ σ with store := { σ.store with forest := σ.store.forest.define m name text } } :
      Session).living = σ.living := by
  refine living_of_livingWith (livingWith_of_links rfl ?_ (Store.next_define ..) rfl) rfl
  funext i
  cases i with
  | node n =>
    simp only [links, Store.next_define]
    unfold Store.links Store.optionsOf
    rw [Store.get_define]
    by_cases hm : m = n ∧ m < σ.store.next
    · rw [if_pos hm]
      rfl
    · rw [if_neg hm]
  | _ => rfl

/-- Properties defined on a rule set that does not stand above another one are not visible from that
one, nor do they hide any, and the chain of that one stays as it is. -/
theorem Defines.sees (h : Defines m σ σ') (hn : ¬ σ.Above n m) :
    (∀ t, σ'.target t = σ.target t) ∧ ∀ name, σ'.sees n name = σ.sees n name := by
  induction h with
  | refl => exact ⟨fun _ => rfl, fun _ => rfl⟩
  | @step σ σ₁ σ₂ t name d r ht hb _ ih =>
    rcases eq_of_begin_define ht hb with rfl | ⟨text, rfl⟩
    · exact ih hn
    · generalize hσ₁ : ({ σ with store := { σ.store with
        forest := σ.store.forest.define m name text } } : Session) = σ₁ at ih
      have hliving : σ₁.living = σ.living := hσ₁ ▸ living_define σ m name text
      have hget (x : NodeId) : σ₁.store.get x = if m = x ∧ m < σ.store.next then
          { σ.store.get x with scope := (σ.store.get x).scope.insert name text }
          else σ.store.get x := by
        subst hσ₁
        exact Store.get_define ..
      have hparent (x : NodeId) : σ₁.parent? x = σ.parent? x := by
        unfold parent? alive
        rw [hliving, hget]
        split <;> rfl
      have habove (x : NodeId) : σ₁.Above n x ↔ σ.Above n x := by
        unfold Above
        simp only [hparent]
      obtain ⟨ht', hs'⟩ := ih fun ha => hn ((habove m).1 ha)
      refine ⟨fun t => ?_, fun name' => ?_⟩
      · rw [ht' t]
        subst hσ₁
        cases t <;> rfl
      · rw [hs' name', Bool.eq_iff_iff, sees_iff, sees_iff]
        refine exists_congr fun x => ?_
        rw [habove]
        refine and_congr_right fun ha => ?_
        rw [hget, if_neg]
        rintro ⟨rfl, -⟩
        exact hn ha

/-! ### Rule sets that are held -/

theorem alive_of_mem_roots {i : Identity} (h : i ∈ σ.roots) : σ.alive i = true :=
  has_livingWith_iff.2 (.inr (.start (List.mem_append_left _ h)))

/-- What a body is run on is kept alive. -/
theorem mem_links_of_subject {purpose : Purpose} (h : purpose.subject? = some (.node n)) :
    .node n ∈ purpose.links := by
  cases purpose with
  | select | build | reset =>
    cases h
    exact List.mem_cons_self
  | register =>
    cases h
    exact List.mem_cons_of_mem _ List.mem_cons_self
  | name p kind generator callee =>
    cases h
    exact List.mem_cons_of_mem _ (List.mem_append_left _ (List.mem_append_left _ List.mem_cons_self))
  | probe => cases h
  | attempt => cases h

/-- What a statement can act on is alive. -/
theorem alive_of_target {t : Target} (h : σ.target t = .node n) : σ.alive (.node n) = true := by
  refine alive_of_mem_roots ?_
  unfold roots
  cases t with
  | handle name =>
    simp only [target] at h
    cases hf : σ.handles.find? name with
    | none => rw [hf] at h; cases h
    | some m =>
      rw [hf] at h
      cases h
      have hm : .node n ∈ σ.handles.values.map Identity.node :=
        List.mem_map_of_mem (mem_values_of_find? hf)
      simp only [List.mem_append]
      exact .inl (.inl (.inl (.inl (.inr hm))))
  | enclosing depth =>
    simp only [target] at h
    cases hf : σ.enclosing[depth]? with
    | none => rw [hf] at h; cases h
    | some d =>
      rw [hf] at h
      cases h
      obtain ⟨c, hc, hs⟩ := List.mem_filterMap.1 (List.mem_of_getElem? hf)
      have hm : .node n ∈ σ.calls.flatMap Call.links :=
        List.mem_flatMap.2 ⟨c, hc, List.mem_append_right _ (mem_links_of_subject hs)⟩
      simp only [List.mem_append]
      exact .inl (.inr hm)

/-- What a rule set that is alive lists is alive, and has it for a parent. -/
theorem alive_of_lists {p c : NodeId} (hp : σ.alive (.node p) = true) (hl : σ.store.Lists p c) :
    σ.alive (.node c) = true := by
  have hlt : p < σ.store.next := Nat.lt_trans hl.lt (Forest.lt_size_of_mem_children hl)
  rcases has_livingWith_iff.1 hp with ⟨_, h⟩ | h
  · cases h
  · refine has_livingWith_iff.2 (.inr (.link h ?_))
    show _ ∈ if p < σ.store.next then σ.store.links p else []
    rw [if_pos hlt]
    exact List.mem_append_left _ (List.mem_append_left _ (List.mem_append_left _
      (List.mem_map_of_mem hl)))

/-- From the end of a path of children, the chain goes up the whole path again. -/
theorem chain_of_path {r : NodeId} (hr : σ.alive (.node r) = true) (path : List NodeId)
    (h : List.IsChain σ.store.Lists (r :: path)) :
    σ.chain (path.getLastD r) = path.reverse ++ σ.chain r := by
  induction path generalizing r with
  | nil => rfl
  | cons c path ih =>
    obtain ⟨hl, hc⟩ := List.isChain_cons_cons.1 h
    have hp : σ.parent? c = some r := by
      unfold parent?
      rw [hl.parent, Option.filter_some, if_pos hr]
    rw [List.getLastD_cons, ih (alive_of_lists hr hl) hc, chain_eq_cons σ c, hp, List.reverse_cons,
      List.append_assoc]
    rfl

/-! ### References -/

/-- Which custom properties can be referred to, and what that depends on. -/
structure ResolvesScope (σ : Session) : Prop where
  /-- a search for a property meets older and older rule sets, and so comes to an end -/
  ends : ∀ n, (σ.chain n).Pairwise (· > ·) ∧ ∀ m, m ∈ σ.chain n ↔ σ.Above n m
  /-- it finds what the rule set or one above it defines -/
  check : ∀ t n name, σ.target t = .node n → ∃ found,
    σ.begin (.check t name) = .answer σ (.ok (.bool found)) ∧
      (found = true ↔ ∃ m, σ.Above n m ∧ name ∈ (σ.store.get m).scope.keys)
  /-- a reference is given to what is found, and nothing else can be referred to -/
  var : ∀ t n name, σ.target t = .node n →
    ((∃ m, σ.Above n m ∧ name ∈ (σ.store.get m).scope.keys) →
      σ.begin (.var t name) = .answer σ (.ok (.text ("var(--" ++ name ++ ")")))) ∧
    ((¬ ∃ m, σ.Above n m ∧ name ∈ (σ.store.get m).scope.keys) →
      σ.begin (.var t name) = .refuse σ (.undefinedReference name))
  /-- what is defined on rule sets that do not stand above does not matter -/
  aside : ∀ n m, ¬ σ.Above n m → ∀ σ', Defines m σ σ' → ∀ t name, σ.target t = .node n →
    (σ'.begin (.check t name)).result? = (σ.begin (.check t name)).result? ∧
      (σ'.begin (.var t name)).result? = (σ.begin (.var t name)).result?
  /-- such are the rule sets beneath, and the others under the same parent -/
  beside : ∀ n m, m ≠ n → (m ∈ σ.store.forest.preorder n ∨
    ∃ p, (σ.store.get n).parent = some p ∧ (σ.store.get m).parent = some p) → ¬ σ.Above n m
  /-- what a statement can act on is held -/
  held : ∀ t r, σ.target t = .node r → σ.alive (.node r) = true
  /-- what is reached from a rule set that is held has the whole path above it -/
  path : ∀ r, σ.alive (.node r) = true → ∀ path : List NodeId,
    List.IsChain σ.store.Lists (r :: path) → σ.chain (path.getLastD r) = path.reverse ++ σ.chain r

theorem begin_check {t : Target} (ht : σ.target t = .node n) (name : String) :
    σ.begin (.check t name) = .answer σ (.ok (.bool (σ.sees n name))) := by
  show σ.onNode t _ = _
  unfold onNode
  rw [ht]

theorem begin_var {t : Target} (ht : σ.target t = .node n) (name : String) :
    σ.begin (.var t name) = .answer σ ((σ.reference n name).map .text) := by
  show σ.onNode t _ = _
  unfold onNode
  rw [ht]

/-- In every session, custom properties are looked for on a rule set and on those above it, and
nowhere else. -/
theorem resolvesScope (σ : Session) : σ.ResolvesScope where
  ends n := ⟨σ.chain_descending n, fun _ => mem_chain_iff⟩
  check t n name ht := ⟨σ.sees n name, begin_check ht name, sees_iff⟩
  var t n name ht := by
    rw [begin_var ht, ← sees_iff]
    unfold reference
    refine ⟨fun h => ?_, fun h => ?_⟩
    · rw [if_pos h]
      rfl
    · rw [if_neg h]
      rfl
  aside n m hn σ' hd t name ht := by
    obtain ⟨htarget, hsees⟩ := hd.sees hn
    have ht' : σ'.target t = .node n := (htarget t).trans ht
    rw [begin_check ht, begin_check ht', begin_var ht, begin_var ht']
    unfold reference
    rw [hsees name]
    exact ⟨rfl, rfl⟩
  beside n m hne h := not_above_of_beside hne h
  held t r ht := alive_of_target ht
  path r hr path h := chain_of_path hr path h

end Session

end RuleTree
