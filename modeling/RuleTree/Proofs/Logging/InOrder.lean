import RuleTree.Proofs.Blocks.Rendering
import RuleTree.Proofs.Iteration.Showing
import RuleTree.Proofs.Logging.Passing
import RuleTree.Proofs.Logging.Unfolding
import RuleTree.Proofs.Rebuilding.Completed

/-!
# The log tells a tree in order

A rule set is announced before its generator is run, and attached when that is over, so that the
log follows the order in which generators begin, and lists of children the one in which they end. If
each generator selects on nothing but the rule set that it was given, the two go together.

* `Session.given?`, `Machine.Nests`: the rule set that the innermost generator was given, and a step
  that makes none but by a selection on it;
* `Machine.Unfolding`: a state in which all that was made since a root unfolds from it;
* `Machine.Unfolding.step`, `Machine.unfolded`: it is so until the generator of the root has come to
  its end;
* `Session.planted_of_begin`, `Machine.unfolding_perform`: the beginning of a build;
* `Session.Recounts`: records that tell the rule sets of a tree in the order of the tree;
* `Machine.recountsBuild`: what is logged in a build tells the tree.
-/

namespace RuleTree

/-- The rule set that the innermost generator of a new rule set was given. -/
def Session.given? (σ : Session) : Option NodeId := (σ.purposes.filterMap Purpose.made?).head?

namespace Machine

/-- Making rule sets in the next step by nothing but selections on the one that the innermost
generator was given, and emptying none. -/
def Nests (m : Machine) : Prop := ∀ e ∈ m.events, e.Nests m.session.given?

instance (m : Machine) : Decidable m.Nests :=
  inferInstanceAs (Decidable (∀ e ∈ m.events, e.Nests m.session.given?))

variable {m : Machine} {outer inner : List Purpose} {root : NodeId}

/-- Being inside the generator of a root: all other calls that fill new rule sets are selections,
and all that was made since the root unfolds from it along these. -/
structure Unfolding (m : Machine) (outer : List Purpose) (root : NodeId) (inner : List Purpose) :
    Prop where
  purposes : m.session.purposes = inner ++ .build root .node :: outer
  selections : ∀ p ∈ inner, p.made? = p.pending?
  unfolds : m.session.store.Unfolds root (inner.filterMap Purpose.pending? ++ [root]).reverse

/-- Having left the generator of a root, which has got all that was made since. -/
structure Unfolded (m : Machine) (outer : List Purpose) (root : NodeId) : Prop where
  purposes : m.session.purposes = outer
  unfolds : m.session.store.Unfolds root [root]
  settled : ∃ tag, m.settled = some (tag, .ok (.value (.node root)))

/-- What nests makes rule sets by selections only. -/
theorem Nests.selected (h : m.Nests) :
    m.events.filterMap Event.made? = m.events.filterMap Event.selected? := by
  refine List.filterMap_congr fun e he => ?_
  have hn := h e he
  cases e with
  | planted => cases hn
  | sprouted n p selector host fragment =>
    obtain ⟨f, rfl⟩ := Option.isSome_iff_exists.1 hn.1
    rfl
  | selected | wrote | defined | cleared | optionSet => rfl

/-- What is entered then is filled for a selection if it is filled for the first time. -/
theorem Nests.entered (h : m.Nests) {entered : Option Purpose}
    (made : m.events.filterMap Event.made? = (entered.bind Purpose.made?).toList)
    (selected : m.events.filterMap Event.selected? = (entered.bind Purpose.pending?).toList) :
    entered.bind Purpose.made? = entered.bind Purpose.pending? := by
  have he := congrArg List.head? (made.symm.trans (h.selected.trans selected))
  rwa [Option.head?_toList, Option.head?_toList] at he

namespace Unfolding

variable (h : m.Unfolding outer root inner)

include h

/-- The innermost generator was given the last rule set of the line. -/
theorem given :
    m.session.given? = (inner.filterMap Purpose.pending? ++ [root]).reverse.getLast? := by
  rw [List.getLast?_reverse, Session.given?, h.purposes, List.filterMap_append,
    List.filterMap_congr h.selections, List.filterMap_cons_some (f := Purpose.made?) rfl]
  cases inner.filterMap Purpose.pending? <;> rfl

/-- What fills nothing for the first time is inside the generator of the root, and its end takes
nothing off the line. -/
theorem kept {dropped : Option Purpose} {rest : List Purpose}
    (before : m.session.purposes = dropped.toList ++ rest)
    (idle : dropped.bind Purpose.made? = none) :
    ∃ kept, rest = kept ++ .build root .node :: outer ∧ (∀ p ∈ kept, p.made? = p.pending?) ∧
      kept.filterMap Purpose.pending? = inner.filterMap Purpose.pending? := by
  have hp := h.purposes.symm.trans before
  cases dropped with
  | none => exact ⟨inner, hp.symm, h.selections, rfl⟩
  | some d =>
    cases inner with
    | nil =>
      obtain ⟨rfl, -⟩ := List.cons.inj hp
      cases idle
    | cons p inner =>
      obtain ⟨rfl, hrest⟩ := List.cons.inj hp
      obtain ⟨hd, hi⟩ := List.forall_mem_cons.1 h.selections
      exact ⟨inner, hrest.symm, hi, (List.filterMap_cons_none (hd.symm.trans idle)).symm⟩

/-- What is selected on the last rule set of the line makes the line longer. -/
theorem fills (nests : m.Nests) {dropped entered : Option Purpose} {rest : List Purpose}
    (before : m.session.purposes = dropped.toList ++ rest)
    (after : m.step.session.purposes = entered.toList ++ rest)
    (idle : dropped.bind Purpose.made? = none) (quiet : ∀ e ∈ m.events, e.lists = false)
    (made : m.events.filterMap Event.made? = (entered.bind Purpose.made?).toList)
    (selected : m.events.filterMap Event.selected? = (entered.bind Purpose.pending?).toList) :
    ∃ inner', m.step.Unfolding outer root inner' := by
  obtain ⟨kept, hrest, hkept, hline⟩ := h.kept before idle
  have hentered := nests.entered made selected
  refine ⟨entered.toList ++ kept, ?_, fun p hp => ?_, ?_⟩
  · rw [after, hrest, List.append_assoc]
  · rcases List.mem_append.1 hp with hp | hp
    · cases Option.mem_toList.1 hp
      exact hentered
    · exact hkept p hp
  · have hu := h.unfolds.trail m.move_step.trail (h.given ▸ nests) quiet
      (made.trans (congrArg Option.toList hentered))
    have hreverse : (entered.bind Purpose.pending?).toList.reverse =
        (entered.bind Purpose.pending?).toList := by
      cases entered.bind Purpose.pending? <;> rfl
    have hpending : entered.toList.filterMap Purpose.pending? =
        (entered.bind Purpose.pending?).toList := by
      cases entered with
      | none => rfl
      | some p => cases hp : p.pending? <;> simp [hp]
    rwa [List.filterMap_append, hpending, hline, List.append_assoc, List.reverse_append, hreverse]

/-- A step that does not fail stays inside the generator of the root or comes to its end. -/
theorem step (nests : m.Nests) (passes : m.Passes) :
    (∃ inner', m.step.Unfolding outer root inner') ∨ m.step.Unfolded outer root := by
  cases passes with
  | fills dropped entered rest before after idle quiet made selected =>
    exact .inl (h.fills nests before after idle quiet made selected)
  | attaches child fragment className rest before after store =>
    have hp := h.purposes.symm.trans before
    cases inner with
    | nil => cases (List.cons.inj hp).1
    | cons p inner =>
      obtain ⟨rfl, rfl⟩ := List.cons.inj hp
      have hu := h.unfolds
      rw [List.filterMap_cons_some (f := Purpose.pending?) rfl, List.cons_append,
        List.reverse_cons] at hu
      refine .inl ⟨inner, after, (List.forall_mem_cons.1 h.selections).2, ?_⟩
      rw [store]
      exact hu.attach (by simp)
  | ends call n σ r rest before after made pending done settled store =>
    have hp := h.purposes.symm.trans before
    cases inner with
    | nil =>
      obtain ⟨hc, rfl⟩ := List.cons.inj hp
      rw [← hc] at done
      cases done
      exact .inr ⟨after, store ▸ h.unfolds, _, settled⟩
    | cons p inner =>
      obtain ⟨rfl, -⟩ := List.cons.inj hp
      have hn := (List.forall_mem_cons.1 h.selections).1
      rw [made, pending] at hn
      cases hn

end Unfolding

/-- A run from inside of the generator of a root to its end. -/
theorem unfolded {P : Machine} {n : Nat} (start : P.Unfolding outer root [])
    (during : ∀ j < n, outer.length < (run j P).session.purposes.length ∧ ¬ (run j P).Fails ∧
      (run j P).Nests)
    (ended : (run n P).session.purposes = outer)
    (ok : ∀ tag e, (run n P).settled ≠ some (tag, .error e)) : (run n P).Unfolded outer root := by
  have step {j : Nat} (hj : j < n) {inner : List Purpose}
      (h : (run j P).Unfolding outer root inner) :
      (∃ inner', (run (j + 1) P).Unfolding outer root inner') ∨
        (run (j + 1) P).Unfolded outer root := by
    obtain ⟨-, hf, hn⟩ := during j hj
    rw [run_step]
    refine h.step hn (passes hf ?_).1
    rw [← run_step]
    rcases Nat.lt_or_eq_of_le hj with hj | rfl
    · exact settled_ne_of_not_fails (during (j + 1) hj).2.1
    · exact ok
  have inside (j : Nat) (hj : j < n) : ∃ inner, (run j P).Unfolding outer root inner := by
    induction j with
    | zero => exact ⟨[], start⟩
    | succ j ih =>
      obtain ⟨inner, h⟩ := ih (Nat.lt_of_succ_lt hj)
      rcases step (Nat.lt_of_succ_lt hj) h with h | h
      · exact h
      · have hlt := (during (j + 1) hj).1
        rw [h.purposes] at hlt
        exact absurd hlt (Nat.lt_irrefl _)
  have outside {inner : List Purpose} (h : (run n P).Unfolding outer root inner) : False := by
    have hl := congrArg List.length (h.purposes.symm.trans ended)
    rw [List.length_append, List.length_cons] at hl
    omega
  cases n with
  | zero => exact (outside start).elim
  | succ n =>
    obtain ⟨inner, h⟩ := inside n (Nat.lt_succ_self n)
    rcases step (Nat.lt_succ_self n) h with ⟨inner', h'⟩ | h'
    · exact (outside h').elim
    · exact h'

end Machine

namespace Session

/-! ### The beginning of a build -/

/-- A generator that does not fail at once is entered. -/
theorem enters_fill {σ : Session} {store : Store} {n : NodeId} {purpose : Purpose}
    {generator : Datum} (h : (σ.fill store n purpose generator).Succeeds) :
    ∃ σ' body, σ.fill store n purpose generator = .enter σ' purpose body := by
  unfold fill at h ⊢
  simp only at h ⊢
  split at h
  · exact absurd rfl (h _)
  obtain ⟨σ', body, he, -⟩ := enters_launch h
  exact ⟨σ', body, he⟩

/-- A build that does not fail at once makes a root and enters its generator. -/
theorem planted_of_begin {σ : Session} {selector generator : Datum} {host : Option Datum}
    {options : List (String × Datum)}
    (h : (σ.begin (.build selector generator host options)).Succeeds) :
    ∃ σ' body host' o more,
      σ.begin (.build selector generator host options) =
        .enter σ' (.build σ.store.next .node) body ∧
      σ.deeds (.build selector generator host options) =
        .planted σ.store.next selector host' o :: more := by
  unfold begin build buildRoot at h
  unfold begin deeds build buildDeeds buildRoot rootDeeds
  by_cases h₁ : hasAny (Table.ofList options) ["selector", "generate"] = true
  · simp only [if_pos h₁] at h
    exact absurd rfl (h _)
  by_cases h₂ : (host.isSome && (Table.ofList options).contains hostOption) = true
  · simp only [if_neg h₁, if_pos h₂] at h
    exact absurd rfl (h _)
  by_cases h₃ : σ.callable generator = true
  · cases ho : OptionSet.merge (optionsDatum ((Table.ofList options).erase hostOption)) with
    | error e =>
      simp only [if_neg h₁, if_neg h₂, if_pos h₃, ho] at h
      exact absurd rfl (h _)
    | ok o =>
      simp only [if_neg h₁, if_neg h₂, if_pos h₃, ho] at h ⊢
      obtain ⟨σ', body, he⟩ := enters_fill h
      exact ⟨σ', body, _, o, _, he, rfl⟩
  · simp only [if_neg h₁, if_neg h₂, if_neg h₃] at h
    exact absurd rfl (h _)

/-! ### What is told -/

/-- Telling the rule sets of a tree, among other things: for each of them there is one record that
announces it by its selector, in the order in which an iteration over the tree enters them. -/
structure Recounts (σ : Session) (root : NodeId) (records : Array LogRecord) : Prop where
  single : (σ.store.forest.preorder root).Nodup
  announced : List.Forall₂ (fun n record => ∃ selector, (σ.store.get n).selector = .text selector ∧
      record = ⟨.generating, .text selector, Text.quoted selector⟩)
    (σ.store.forest.preorder root) (announcements records)
  visited : ∀ look, ∃ count, ((Iteration.blocks (.start root)).take σ.store look count).2 = .ended ∧
    enteredNodes (Iteration.showings σ.store look count (.blocks (.start root))) =
      σ.store.forest.preorder root

/-- If all that was made since a root is in its tree, the announcements of what was made tell the
tree. -/
theorem Recounts.of_unfolds {σ : Session} {root : NodeId} {records : Array LogRecord}
    (unfolds : σ.store.Unfolds root [root])
    (announced : List.Forall₂ LogRecord.Announces
      ((σ.store.forest.preorder root).map fun n => (σ.store.get n).selector)
      (announcements records)) : σ.Recounts root records where
  single := by
    rw [unfolds.preorder_root]
    exact List.nodup_range'
  announced := by
    have texts (n : NodeId) (hn : n ∈ σ.store.forest.preorder root) := unfolds.text_of_mem hn
    refine ((List.forall₂_and_left _ _).2 ⟨texts, List.forall₂_map_left_iff.1 announced⟩).imp ?_
    rintro n ⟨event, subject, label⟩ ⟨text, rfl, hs, look, hl⟩
    obtain ⟨selector, ht⟩ := Datum.exists_of_isText text
    cases hs
    simp only [ht, Datum.label_text] at hl ⊢
    cases hl
    exact ⟨selector, rfl, rfl⟩
  visited look := by
    refine Iteration.entered_eq_preorder
      (f := fun x => ((σ.store.block? look x).toOption).getD none) fun x hx => ?_
    obtain ⟨selector, ht⟩ := Datum.exists_of_isText (unfolds.text_of_mem hx)
    rw [Store.block?, RuleSet.block?_eq_shown ht]
    rfl

end Session

namespace Machine

/-- A statement that succeeds does not fail at once. -/
theorem Performs.succeeds {m m' : Machine} {tag : Tag} {action : Action Datum (List Stmt)}
    {r : Result} (h : m.Performs tag action (.ok r) m') : (m.session.begin action).Succeeds := by
  intro e he
  cases hb : m.session.begin action with
  | done σ r' =>
    rw [hb] at he
    cases he
    cases h.of_done hb
  | enter σ purpose body =>
    rw [hb] at he
    cases he

/-- When a build for a text does not fail at once, nothing but the root is made and announced, and
its generator is entered. -/
theorem unfolding_perform {m : Machine} {selector : String} {generator : Datum}
    {host : Option Datum} {options : List (String × Datum)}
    (succeeds : (m.session.begin (.build (.text selector) generator host options)).Succeeds)
    (tag : Tag) :
    let P := m.perform tag (.build (.text selector) generator host options)
    P.Unfolding m.session.purposes m.session.store.next [] ∧
      ∃ host' o more,
        m.session.store.Trail (.planted m.session.store.next (.text selector) host' o :: more)
          P.session.store ∧
        m.session.Logs ((Event.planted m.session.store.next (.text selector) host' o ::
          more).filterMap Event.announced?) P.session := by
  obtain ⟨σ, body, host', o, more, enter, deeds⟩ := Session.planted_of_begin succeeds
  obtain ⟨made, -, logs⟩ := (m.session.announces_begin _).makes succeeds
  obtain ⟨trail, quiet, -, -⟩ :=
    (m.session.does_begin (.build (.text selector) generator host options) rfl).turns
  rw [enter, deeds] at trail made logs
  rw [deeds] at quiet
  have text : (σ.store.get m.session.store.next).selector = .text selector :=
    (trail.holds List.mem_cons_self).1
  simp only [perform_enter enter]
  exact ⟨⟨rfl, nofun, .of_root trail quiet made (congrArg Datum.isText text)⟩, host', o, more,
    trail, logs⟩

/-- What holds in every state between the beginning and the completion of a statement. -/
def Throughout (m : Machine) (tag : Tag) (action : Action Datum (List Stmt))
    (P : Machine → Prop) : Prop :=
  ∀ k, (∀ j ≤ k, m.session.calls.length < (run j (m.perform tag action)).session.calls.length) →
    P (run k (m.perform tag action))

/-- It is enough to look at so many states if the statement is complete after them. -/
theorem Throughout.of_run {m : Machine} {tag : Tag} {action : Action Datum (List Stmt)}
    {P : Machine → Prop} {n : Nat}
    (ended : (run n (m.perform tag action)).session.calls.length ≤ m.session.calls.length)
    (h : ∀ j < n, P (run j (m.perform tag action))) : m.Throughout tag action P := by
  intro k hk
  refine h k (Nat.lt_of_not_le fun hnk => ?_)
  exact absurd (hk n hnk) (Nat.not_lt.2 ended)

/-- If a build for a text succeeds without any statement failing, and meanwhile rule sets are made
only by selections on what the innermost generator was given, then the announcements in the log
since it began tell the tree of the root. -/
theorem recountsBuild {m m' : Machine} {tag : Tag} {selector : String} {generator : Datum}
    {host : Option Datum} {options : List (String × Datum)} {r : Result} {records : Array LogRecord}
    (built : m.Cleanly tag (.build (.text selector) generator host options) (.ok r) m')
    (nests : m.Throughout tag (.build (.text selector) generator host options) Nests)
    (logged : m.session.log = some records) :
    ∃ root added, r = .value (.node root) ∧
      (m'.session.store.get root).selector = .text selector ∧
      m'.session.log = some (records ++ added) ∧ m'.session.Recounts root added := by
  obtain ⟨start, host', o, more, trail, logs⟩ := unfolding_perform built.performs.succeeds tag
  obtain ⟨n, rfl, settled, calls, meanwhile⟩ := built
  have nested (j : Nat) (hj : j < n) := nests j fun i hi =>
    (meanwhile i (Nat.lt_of_le_of_lt hi hj)).1
  generalize m.perform tag (.build (.text selector) generator host options) = P at *
  have ok (tag' : Tag) (e : Error) : (run n P).settled ≠ some (tag', .error e) := fun h => by
    cases settled.symm.trans h
  obtain ⟨-, unfolds, tag', result⟩ := unfolded start (fun j hj => by
    rw [Session.purposes, Session.purposes, List.length_map, List.length_map]
    exact ⟨(meanwhile j hj).1, (meanwhile j hj).2, nested j hj⟩)
    (congrArg (List.map Call.purpose) calls) ok
  cases settled.symm.trans result
  -- the events of the whole build, from the beginning of the statement
  have whole := trail.append (P.trail_history n)
  obtain ⟨added, log, announced⟩ :=
    logs.trans (logs_history (fun j hj => (meanwhile j hj).2) ok) records logged
  refine ⟨m.session.store.next, added, rfl, (whole.holds List.mem_cons_self).1, log,
    .of_unfolds unfolds ?_⟩
  rw [← List.filterMap_append, whole.announced, whole.made, ← unfolds.preorder_root] at announced
  exact announced

end Machine

/-- A script with a generator that nests rule sets two deep and side by side. -/
def Script.announcing : Script where
  steps := []
  generators := .ofList [("tree", [
    .mk (.select (.enclosing 0) "select" (some (.text ":b")) (some (.inline [
      .mk (.select (.enclosing 0) "select" (some (.text ":c")) (some (.inline []))) none none,
      .mk (.write (.enclosing 0) (.text "x;")) none none]))) none none,
    .mk (.select (.enclosing 0) "select" (some (.text ":d")) (some (.inline []))) none none])]
  logs := true

theorem Machine.recountsBuild_announcing :
    let action := .build (.text "a") (.generator (.named "tree")) none []
    ∃ r m' root added, (load .announcing).Cleanly ⟨[], none, none⟩ action (.ok r) m' ∧
      (load .announcing).Throughout ⟨[], none, none⟩ action Nests ∧
      (load .announcing).session.log = some #[] ∧
      r = .value (.node root) ∧ (m'.session.store.get root).selector = .text "a" ∧
      m'.session.log = some (#[] ++ added) ∧ m'.session.Recounts root added := by
  intro action
  obtain ⟨r, built⟩ := cleanly_of_run (load .announcing) ⟨[], none, none⟩ action 12
    (by decide +kernel) (by decide +kernel) (by decide +kernel) (by decide +kernel)
  have nests : (load .announcing).Throughout ⟨[], none, none⟩ action Nests :=
    .of_run (n := 12) (by decide +kernel) (by decide +kernel)
  obtain ⟨root, added, told⟩ := recountsBuild built nests rfl
  exact ⟨r, _, root, added, built, nests, rfl, told⟩

end RuleTree
