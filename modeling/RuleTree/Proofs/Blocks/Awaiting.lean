import RuleTree.Proofs.Blocks.Serialization
import RuleTree.Proofs.Blocks.Sources
import RuleTree.Proofs.History.Run
import RuleTree.Proofs.Iteration.Showing

/-!
# Selectors that await a target

* `Store.Unwritten`: no rule set has text whose selector is no text or awaits a target, which every
  event keeps so;
* `RuleSet.block?_of_awaiting`, `RuleSet.block?_eq_some`: such a rule set has no block, and a block
  always has a body and a selector that awaits nothing;
* `Cursor.drain_of_no_block`: an iteration passes over a rule set without a block to its children;
* `Session.Awaiting`, `Session.Writable`: what holds of a rule set whose selector awaits a target,
  and of one with another text for a selector;
* `Session.Bodied`: what holds of the blocks of a tree;
* `Machine.keeps_awaiting_bare`: all this holds in every state of a script.
-/

namespace RuleTree

namespace Store

/-- Only rule sets have text whose selector is a text that awaits no target. -/
def Unwritten (s : Store) : Prop :=
  ∀ n, (s.get n).text ≠ "" → ∃ selector, (s.get n).selector = .text selector ∧
    incomplete selector = false

theorem Unwritten.text_eq {s : Store} (h : s.Unwritten) {n : NodeId} {selector : String}
    (hs : (s.get n).selector = .text selector) (hi : incomplete selector = true) :
    (s.get n).text = "" := by
  refine Decidable.byContradiction fun hne => ?_
  obtain ⟨selector', hs', hc⟩ := h n hne
  cases hs.symm.trans hs'
  cases hi.symm.trans hc

theorem unwritten_empty : empty.Unwritten := fun _ h => absurd rfl h

/-- A rule set of a store after an event has the text of one before with the same selector, unless
it was written on. -/
theorem Becomes.unwritten {s t : Store} {e : Event} (h : s.Unwritten) (he : s.Becomes e t) :
    t.Unwritten := by
  intro n ht
  cases he with
  | planted =>
    rw [get_plant] at ht ⊢
    split at ht
    · exact absurd rfl ht
    · rename_i hn
      rw [if_neg hn]
      exact h n ht
  | sprouted =>
    rw [get_sprout] at ht ⊢
    split at ht
    · exact absurd rfl ht
    · rename_i hn
      rw [if_neg hn]
      exact h n ht
  | selected =>
    rw [get_attach] at ht ⊢
    split at ht <;> (split <;> exact h n ht)
  | wrote m text selector hm hc =>
    rw [get_append] at ht ⊢
    split at ht
    · -- the rule set written on awaits nothing
      rename_i hn
      rw [if_pos hn]
      exact ⟨selector, hn.1 ▸ hm, hc⟩
    · rename_i hn
      rw [if_neg hn]
      exact h n ht
  | defined =>
    rw [get_define] at ht ⊢
    split at ht <;> (split <;> exact h n ht)
  | cleared =>
    rw [get_clear] at ht ⊢
    split at ht
    · exact absurd rfl ht
    · rename_i hn
      rw [if_neg hn]
      exact h n ht
  | optionSet => exact h n ht

end Store

/-! ### Blocks -/

namespace RuleSet

variable {r : RuleSet} {selector : String}

/-- What awaits a target and has no text has no block, whatever the options are. -/
theorem block?_of_awaiting (hs : r.selector = .text selector) (hi : incomplete selector = true)
    (ht : r.text = "") (look : Appearance) (emit : Bool) : r.block? look emit = .ok none := by
  have hd : r.declared emit selector = "" := by
    unfold declared
    rw [(incomplete_iff_getLast? selector).1 hi, if_neg (by simp)]
  rw [block?_eq_shown hs, shown, hd, ht]
  rfl

/-- A block has a body. -/
theorem block?_eq_some (hs : r.selector = .text selector) {look : Appearance} {emit : Bool}
    {block : String} (h : r.block? look emit = .ok (some block)) :
    ∃ body, body ≠ "" ∧ block = blockText selector body := by
  rw [block?_eq_shown hs] at h
  have h := Except.ok.inj h
  unfold shown at h
  simp only at h
  split at h
  · cases h
  · rename_i hb
    exact ⟨_, hb, (Option.some.inj h).symm⟩

end RuleSet

/-! ### Iterations -/

namespace Cursor

variable {s : Store} {look : Appearance} {n : NodeId} {c : Cursor}

/-- An iteration that comes to a rule set without a block goes on with its children. -/
theorem drain_of_no_block (hb : s.block? look n = .ok none) (rest : Cursor) :
    drain s look (.enter n :: rest) =
      drain s look ((s.get n).children.map .enter ++ rest) := by
  have hr : remaining s ((s.get n).children.map .enter ++ rest) =
      (s.get n).children.flatMap s.forest.preorder ++ remaining s rest := by
    unfold remaining
    rw [List.flatMap_append, List.flatMap_map]
    rfl
  have hn : remaining s (.enter n :: rest) =
      n :: ((s.get n).children.flatMap s.forest.preorder ++ remaining s rest) := by
    rw [remaining_cons]
    show s.forest.preorder n ++ _ = _
    rw [Forest.preorder_eq, List.cons_append]
    rfl
  rw [drain_eq_mapM, drain_eq_mapM, hn, hr, List.mapM_cons, hb]
  generalize List.mapM (s.block? look) _ = blocks
  cases blocks <;> rfl

/-- What a step shows is the block of the rule set that it enters. -/
theorem block?_of_step {c' : Cursor} {block : Option String} (hc : step s look c = .ok (c', block))
    (hn : entering? c = some n) : s.block? look n = .ok block := by
  cases c with
  | nil => cases hn
  | cons v rest =>
    cases v with
    | resume => cases hn
    | enter m =>
      cases hn
      simp only [step] at hc
      cases hb : s.block? look n with
      | error e => rw [hb] at hc; cases hc
      | ok b =>
        rw [hb] at hc
        cases hc
        rfl

/-- What an iteration shows when it enters a rule set is the block that this one has. -/
theorem block?_of_mem_showings {x : Showing} (hx : x ∈ showings s look c) :
    s.block? look x.1 = .ok x.2 := by
  fun_induction showings s look c with
  | case1 => cases hx
  | case2 => cases hx
  | case3 c hc c' block hs =>
    obtain ⟨m, hm, rfl⟩ := List.mem_map.1 hx
    exact block?_of_step hs (Option.mem_toList.1 hm)
  | case4 c hc c' hs ih =>
    rcases List.mem_append.1 hx with hx | hx
    · obtain ⟨m, hm, rfl⟩ := List.mem_map.1 hx
      exact block?_of_step hs (Option.mem_toList.1 hm)
    · exact ih hx

end Cursor

/-- However far an iteration is advanced, what it shows when it enters a rule set is the block that
this one has. -/
theorem Iteration.block?_of_mem_showings {s : Store} {look : Appearance} {count : Nat}
    {i : Iteration} {x : Showing} (hx : x ∈ i.showings s look count) :
    s.block? look x.1 = .ok x.2 := by
  induction count generalizing i with
  | zero => cases hx
  | succ count ih =>
    cases i with
    | ended => cases hx
    | items => cases hx
    | blocks c =>
      rcases List.mem_append.1 hx with hx | hx
      · exact Cursor.block?_of_mem_showings hx
      · exact ih hx

/-! ### Rule sets and trees -/

namespace Session

/-- What holds of a rule set whose selector awaits a target, whatever the options of its tree are.
-/
structure Awaiting (σ : Session) (n : NodeId) (selector : String) : Prop where
  text : (σ.store.get n).text = ""
  /-- whatever is written, that is refused and changes nothing -/
  write : ∀ t d, σ.target t = .node n →
    σ.begin (.write t d) = .refuse σ (.incompleteSelector selector)
  /-- and so are declarations, even if there are none -/
  assign : ∀ t properties keywords lines, σ.target t = .node n →
    declarationsOf σ.appearance (some (properties.getD .null)) (.ofList keywords) = .ok lines →
    σ.begin (.assign t properties keywords) = .refuse σ (.incompleteSelector selector)
  /-- an iteration that is at any place shows nothing for it, however far it is advanced -/
  shows : ∀ options look count (i : Iteration),
    ∀ x ∈ i.showings { σ.store with options } look count, x.1 = n → x.2 = none
  /-- and passes over it to its children -/
  passes : ∀ options look rest, Cursor.drain { σ.store with options } look (.enter n :: rest) =
    Cursor.drain { σ.store with options } look ((σ.store.get n).children.map .enter ++ rest)

/-- What holds of a rule set with another text for a selector: any text can be written on it. -/
def Writable (σ : Session) (n : NodeId) : Prop :=
  ∀ t text, σ.target t = .node n → ∃ store,
    σ.begin (.write t (.text text)) =
      .done { σ with store } (.ok (.written ((σ.store.get n).text ++ text))) ∧
    (store.get n).text = (σ.store.get n).text ++ text

/-- What holds of a tree of texts, whatever its options are: it can be serialized, and each of its
blocks is that of a rule set whose selector awaits nothing, and has a body. -/
def Bodied (σ : Session) (n : NodeId) : Prop :=
  ∀ options look, ∃ blocks, Cursor.drain { σ.store with options } look (.start n) = .ok blocks ∧
    ∀ block ∈ blocks, ∃ x ∈ σ.store.forest.preorder n, ∃ selector body,
      (σ.store.get x).selector = .text selector ∧ selector.toList.getLast? ≠ some ' ' ∧
        body ≠ "" ∧ block = blockText selector body

variable {σ : Session} {n : NodeId} {selector : String}

theorem begin_write {t : Target} (ht : σ.target t = .node n) (d : Datum) :
    σ.begin (.write t d) =
      σ.changeStore (σ.store.write n d) fun s => .written (s.get n).text := by
  show σ.onNode t _ = _
  unfold onNode
  rw [ht]

theorem awaiting (hu : σ.store.Unwritten) (hs : (σ.store.get n).selector = .text selector)
    (hi : incomplete selector = true) : σ.Awaiting n selector := by
  have ht := hu.text_eq hs hi
  have hw (d : Datum) : σ.store.write n d = .error (.incompleteSelector selector) := by
    unfold Store.write
    rw [hs]
    cases d <;> simp [hi]
  have hb (options : Array OptionSet) (look : Appearance) :
      Store.block? { σ.store with options } look n = .ok none :=
    RuleSet.block?_of_awaiting hs hi ht look _
  exact
    { text := ht
      write := fun t d h => by
        rw [begin_write h, hw]
        rfl
      assign := fun t properties keywords lines h hl => by
        show σ.onNode t _ = _
        unfold onNode
        rw [h]
        show σ.changeStore (σ.store.assign _ n _ _) _ = _
        have ha : σ.store.assign σ.appearance n (properties.getD .null) (.ofList keywords) =
            .error (.incompleteSelector selector) := by
          unfold Store.assign
          rw [hl]
          exact hw _
        rw [ha]
        rfl
      shows := fun options look count i x hx hn => by
        have h := Iteration.block?_of_mem_showings hx
        rw [hn, hb] at h
        exact (Except.ok.inj h).symm
      passes := fun options look rest => Cursor.drain_of_no_block (hb options look) rest }

/-- A text can be written where nothing is awaited. -/
theorem begin_write_text {t : Target} (ht : σ.target t = .node n)
    (hs : (σ.store.get n).selector = .text selector) (hi : incomplete selector = false)
    (text : String) :
    σ.begin (.write t (.text text)) =
      .done { σ with store.forest := σ.store.forest.append n text }
        (.ok (.written ((σ.store.get n).text ++ text))) := by
  have hw := Store.write_text σ.store n selector text hs
  rw [if_neg (by simp [hi])] at hw
  have hget : (({ σ.store with forest := σ.store.forest.append n text } : Store).get n).text =
      (σ.store.get n).text ++ text := by
    rw [Store.get_append, if_pos ⟨rfl, Store.lt_next_of_selector hs⟩]
  rw [begin_write ht, hw, ← hget]
  rfl

theorem writable (hs : (σ.store.get n).selector = .text selector)
    (hi : incomplete selector = false) : σ.Writable n := by
  intro t text ht
  refine ⟨_, begin_write_text ht hs hi text, ?_⟩
  rw [Store.get_append, if_pos ⟨rfl, Store.lt_next_of_selector hs⟩]

theorem bodied (hu : σ.store.Unwritten)
    (texts : ∀ x ∈ σ.store.forest.preorder n, (σ.store.get x).selector.isText = true) :
    σ.Bodied n := by
  intro options look
  let s : Store := { σ.store with options }
  have hb : ∀ x ∈ Cursor.remaining s (.start n),
      s.block? look x = .ok (s.rendering (s.emits x) x) := by
    intro x hx
    rw [Cursor.remaining_start] at hx
    exact Store.block?_of_options (s := s) (n := x) (texts x hx) rfl look
  refine ⟨_, Cursor.drain_eq hb, fun block hblock => ?_⟩
  obtain ⟨x, hx, hr⟩ := List.mem_filterMap.1 hblock
  have hblock := hb x hx
  rw [hr] at hblock
  rw [Cursor.remaining_start] at hx
  obtain ⟨selector, hs⟩ := Datum.exists_of_isText (texts x hx)
  obtain ⟨body, hne, hbody⟩ := RuleSet.block?_eq_some hs hblock
  refine ⟨x, hx, selector, body, hs, fun hl => ?_, hne, hbody⟩
  have hi := (incomplete_iff_getLast? selector).2 hl
  have hnone : s.block? look x = .ok none :=
    RuleSet.block?_of_awaiting hs hi (hu.text_eq hs hi) look _
  rw [hblock] at hnone
  cases hnone

end Session

/-! ### Every state -/

namespace Machine

theorem unwritten (s : Script) (k : Nat) : (run k (load s)).session.store.Unwritten :=
  Store.Trail.preserves (P := fun _ s => s.Unwritten) (fun h he => he.unwritten h)
    (trail_history k (load s)) (h := []) Store.unwritten_empty

/-- In every state of a script, nothing is ever attached to a selector that ends with a space, any
text can be written on a rule set with another text for a selector, and every block of a tree of
texts has a selector that does not end with a space, and a body. -/
theorem keeps_awaiting_bare (s : Script) (k : Nat) :
    (∀ n selector, ((run k (load s)).session.store.get n).selector = .text selector →
      (selector.toList.getLast? = some ' ' → (run k (load s)).session.Awaiting n selector) ∧
      (selector.toList.getLast? ≠ some ' ' → (run k (load s)).session.Writable n)) ∧
    ∀ n, (∀ x ∈ (run k (load s)).session.store.forest.preorder n,
        ((run k (load s)).session.store.get x).selector.isText = true) →
      (run k (load s)).session.Bodied n := by
  have hu := unwritten s k
  refine ⟨fun n selector hs => ⟨fun hl => ?_, fun hl => ?_⟩, fun n texts => Session.bodied hu texts⟩
  · exact Session.awaiting hu hs ((incomplete_iff_getLast? selector).2 hl)
  · refine Session.writable hs (Bool.eq_false_iff.2 fun hi => hl ?_)
    exact (incomplete_iff_getLast? selector).1 hi

end Machine

/-- A script in which nothing can be written on a root that awaits a target, but its properties are
defined and a rule set beneath it is filled. -/
def Script.descending : Script where
  steps := [.mk (.build (.text "nav ") (.inline [
      .mk (.define (.enclosing 0) "k" (.text "v")) none none,
      .mk (.attempt [.mk (.write (.enclosing 0) (.text "lost;")) none none]) none none,
      .mk (.select (.enclosing 0) "select" (some (.text "a")) (some (.inline [
        .mk (.write (.enclosing 0) (.text "x;")) none none]))) none none])
    none [("emit_custom_properties", .bool true)]) none none]
  generators := .empty
  logs := false

theorem Datum.eq_text_of_keyText? {d : Datum} {t : String} (h : keyText? d = some t) :
    d = .text t := by
  cases d with
  | text s => exact congrArg Datum.text (Option.some.inj h)
  | _ => cases h

theorem Machine.keeps_awaiting_bare_descending :
    (run 14 (load .descending)).finished = true ∧
      (run 14 (load .descending)).session.Awaiting 0 "nav " ∧
      (run 14 (load .descending)).session.Writable 1 := by
  have h := (keeps_awaiting_bare .descending 14).1
  exact ⟨by decide +kernel,
    (h 0 "nav " (Datum.eq_text_of_keyText? (by decide +kernel))).1 (by decide +kernel),
    (h 1 "nav a" (Datum.eq_text_of_keyText? (by decide +kernel))).2 (by decide +kernel)⟩

end RuleTree
