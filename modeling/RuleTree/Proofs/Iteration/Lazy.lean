import RuleTree.Proofs.Iteration.Progress
import RuleTree.Proofs.Iteration.Track

/-!
# Iterations while scripts run

* `Machine.rebegins`: the next step begins an iteration under a name;
* `Machine.showings`, `Machine.shown`: what an iteration enters and shows in the next step, and in
  several steps;
* `Machine.WalkCases`, `Machine.walkCases`: a step advances an iteration or leaves it as it is;
* `Machine.Undisturbed`: no step empties a rule set of a tree;
* `Machine.Walking`: where an iteration stands after several steps;
* `Machine.WalksLazily`, `Machine.walksLazily`: what an iteration over a tree comes to, whatever
  else happens between its steps.
-/

namespace RuleTree

/-- The cursor of an iteration over blocks. -/
def Iteration.cursor? : Iteration → Option Cursor
  | blocks c => some c
  | _ => none

theorem Iteration.eq_some_blocks_of_cursor? {i : Option Iteration} {c : Cursor}
    (h : i.bind cursor? = some c) : i = some (.blocks c) := by
  obtain ⟨j, rfl, hj⟩ := Option.bind_eq_some_iff.1 h
  cases j with
  | blocks d =>
    cases hj
    rfl
  | _ => cases hj

namespace Machine

/-- Whether the next step begins an iteration under a name. -/
def rebegins (m : Machine) (it : String) : Bool :=
  match m.task with
  | .begin _ _ (.iterate _ _ name) => name = it
  | _ => false

/-- The next step advances an iteration. -/
def Advances (m : Machine) (it : String) (tag : Tag) (count : Nat) : Prop :=
  ∃ σ, m.task = .begin σ tag (.advance it count)

/-- What an iteration enters and shows in the next step. -/
def showings (m : Machine) (it : String) : List Showing :=
  match m.task with
  | .begin σ _ (.advance name count) =>
    if name = it then
      ((σ.iterations.find? it).map (·.showings σ.store σ.appearance count)).getD []
    else []
  | _ => []

/-- What an iteration enters and shows in the next steps. -/
def shown (m : Machine) (it : String) (k : Nat) : List Showing :=
  (List.range k).flatMap fun i => (run i m).showings it

theorem shown_succ (m : Machine) (it : String) (k : Nat) :
    m.shown it (k + 1) = m.shown it k ++ (run k m).showings it := by
  unfold shown
  rw [List.range_succ, List.flatMap_append, List.flatMap_singleton]

/-- What the next step does to an iteration that is not begun anew: it leaves it as it is, or it
takes what the iteration yields, and does nothing else. -/
inductive WalkCases (m : Machine) (it : String) (i : Iteration) : Prop
  | still (idle : ∀ tag count, ¬ m.Advances it tag count) (showings : m.showings it = [])
    (same : m.step.session.iterations.find? it = some i)
  | advanced (look : Appearance) (tag : Tag) (count : Nat)
    (only : ∀ tag' count', m.Advances it tag' count' → tag' = tag ∧ count' = count)
    (showings : m.showings it = i.showings m.session.store look count)
    (next : m.step.session.iterations.find? it = some (i.take m.session.store look count).2)
    (store : m.step.session.store = m.session.store)
    (pending : m.step.session.pending = m.session.pending)
    (settled : m.step.settled =
      some (tag, (i.take m.session.store look count).1.map fun ds => .value (.list ds)))

/-- A statement that does not walk leaves iterations alone. -/
theorem iterations_begin {σ : Session} {action : Action Datum (List Stmt)} {it : String}
    {i : Iteration} (hi : σ.iterations.find? it = some i)
    (hr : ∀ t walk, action ≠ .iterate t walk it) (ha : ∀ count, action ≠ .advance it count) :
    (σ.begin action).session.iterations.find? it = some i := by
  cases hw : action.walks with
  | false => rw [(σ.does_begin action hw).turns.iterations, hi]
  | true =>
    cases action with
    | iterate t walk name =>
      have hne : it ≠ name := fun h => hr t walk (h ▸ rfl)
      simp only [Session.begin, Session.iterate]
      split
      · exact hi
      · exact (Table.find?_insert ..).trans ((if_neg hne).trans hi)
    | advance name count =>
      have hne : it ≠ name := fun h => ha count (h ▸ rfl)
      simp only [Session.begin, Session.advance]
      split
      · exact hi
      · exact (Table.find?_insert ..).trans ((if_neg hne).trans hi)
    | _ => cases hw

theorem iterations_finish (σ : Session) (purpose : Purpose) :
    (σ.finish purpose).session.iterations = σ.iterations := by
  cases hp : purpose.pending? with
  | none => exact (σ.does_finish purpose hp).turns.iterations
  | some c =>
    cases purpose with
    | select child fragment className => rfl
    | _ => cases hp

/-- A statement that advances an iteration takes what it yields, and does nothing else. -/
theorem WalkCases.of_advance {m : Machine} {σ : Session} {tag : Tag} {it : String} {count : Nat}
    {i : Iteration} (hi : σ.iterations.find? it = some i)
    (task : m.task = .begin σ tag (.advance it count)) (alike : m.session.Alike σ)
    (leads : (σ.begin (.advance it count)).LeadsTo
      (σ.begin (.advance it count)).session.pending m.step.session)
    (answers : ∀ r, (σ.begin (.advance it count)).result? = some r →
      m.step.settled = some (tag, r)) : WalkCases m it i := by
  have hb : σ.begin (.advance it count) = .done
      { σ with iterations := σ.iterations.insert it (i.take σ.store σ.appearance count).2 }
      ((i.take σ.store σ.appearance count).1.map fun ds => .value (.list ds)) := by
    simp only [Session.begin, Session.advance, hi]
  rw [hb] at leads answers
  refine .advanced σ.appearance tag count ?_ ?_ ?_ ?_ ?_ ?_
  · rintro tag' count' ⟨σ', h⟩
    rw [task] at h
    cases h
    exact ⟨rfl, rfl⟩
  · simp only [showings, task, if_true, hi, Option.map_some, Option.getD_some, alike.store]
  · rw [leads.iterations, ← alike.store]
    exact Table.find?_insert_self ..
  · rw [leads.store]
    exact alike.store
  · rw [leads.pending]
    exact alike.pending
  · rw [← alike.store]
    exact answers _ rfl

/-- A step that does not begin an iteration anew advances it or leaves it as it is. -/
theorem walkCases {m : Machine} {it : String} {i : Iteration}
    (hi : m.session.iterations.find? it = some i) (hr : m.rebegins it = false) :
    WalkCases m it i := by
  cases stepCases m with
  | still task _ _ iterations _ =>
    refine .still (fun tag count ⟨σ, h⟩ => task σ tag _ h) ?_ (iterations ▸ hi)
    unfold showings
    split
    · rename_i h
      exact absurd h (task _ _ _)
    · rfl
  | finished call below task _ leads =>
    refine .still (fun tag count ⟨σ, h⟩ => ?_) (by rw [showings, task]) ?_
    · rw [task] at h
      cases h
    · rw [leads.iterations, iterations_finish, hi]
  | begun σ tag action task alike leads answers =>
    have hσ : σ.iterations.find? it = some i := by rw [alike.iterations, hi]
    -- only a statement that advances this very iteration walks
    by_cases ha : ∃ count, action = .advance it count
    · obtain ⟨count, rfl⟩ := ha
      exact .of_advance hσ task alike leads answers
    · have hne (count : Nat) : action ≠ .advance it count := fun h => ha ⟨count, h⟩
      refine .still (fun tag' count ⟨σ', h⟩ => ?_) ?_ ?_
      · rw [task] at h
        cases h
        exact hne count rfl
      · unfold showings
        rw [task]
        split
        · rename_i _ _ _ name count h
          cases h
          refine if_neg fun hn => ?_
          subst hn
          exact hne count rfl
        · rfl
      · rw [leads.iterations]
        refine iterations_begin hσ (fun t walk h => ?_) hne
        rw [rebegins, task, h] at hr
        exact absurd rfl (of_decide_eq_false hr)

/-! ### Where an iteration stands -/

/-- None of the next steps empties a rule set of a tree. -/
def Undisturbed (m : Machine) (n : NodeId) (k : Nat) : Prop :=
  ∀ i < k, ∀ x, .cleared x ∈ (run i m).events → x ∉ (run i m).session.store.forest.preorder n

theorem Undisturbed.mono {m : Machine} {n : NodeId} {k l : Nat} (h : m.Undisturbed n l)
    (hkl : k ≤ l) : m.Undisturbed n k := fun i hi => h i (Nat.lt_of_lt_of_le hi hkl)

/-- What is kept by the steps of an iteration over a tree: it stays on its track, and makes progress
in the tree if that is undisturbed. -/
def Standing (s : Store) (pending : List NodeId) (n : NodeId) (first : List NodeId)
    (undisturbed : Prop) (c : Cursor) (seen : List NodeId) : Prop :=
  Cursor.Track s pending n c (seen ++ (Cursor.entering? c).toList) ∧
    (undisturbed → Cursor.Progress s n first c seen)

theorem kept_standing {s : Store} {h : List Event} {pending : List NodeId}
    (ho : s.Owned h pending) (look : Appearance) (n : NodeId) (first : List NodeId)
    (undisturbed : Prop) :
    Cursor.Kept s look (s.rendering (s.optionsOf n).emitCustomProperties.truthy)
      (Standing s pending n first undisturbed) where
  block := fun hst he => (Cursor.Track.kept ho look n).block hst.1 he
  step := fun hc hst => ⟨(Cursor.Track.kept ho look n).step hc hst.1, fun hu => (hst.2 hu).forward⟩

/-- Where an iteration over a tree stands after several steps: on its track, after what it has
entered, and if the tree was undisturbed, in its place in the tree. -/
def Walking (m : Machine) (it : String) (n : NodeId) (k : Nat) : Prop :=
  ∃ i c, (run k m).session.iterations.find? it = some i ∧ i.On c ∧
    Standing (run k m).session.store (run k m).session.pending n
      (m.session.store.forest.preorder n) (m.Undisturbed n k) c
      (enteredNodes (m.shown it k))

theorem Walking.start {m : Machine} {it : String} {n : NodeId}
    (start : m.session.iterations.find? it = some (.blocks (.start n)))
    (text : (m.session.store.get n).selector.isText = true) : m.Walking it n 0 :=
  ⟨_, _, start, .inl rfl, .start text, fun _ => .start _ n⟩

/-- An iteration that is not begun anew goes on from where it stands. -/
theorem Walking.step {m : Machine} {it : String} {n : NodeId} {k : Nat} {h : List Event}
    (hw : m.Walking it n k)
    (ho : (run k m).session.store.Owned h (run k m).session.pending)
    (hr : (run k m).rebegins it = false) : m.Walking it n (k + 1) := by
  obtain ⟨i, c, hi, hon, ht, hp⟩ := hw
  unfold Walking
  rw [shown_succ, enteredNodes_append, run_step]
  cases walkCases hi hr with
  | still _ hs same =>
    refine ⟨i, c, same, hon, ?_⟩
    rw [hs, show enteredNodes [] = [] from rfl, List.append_nil]
    refine ⟨ht.move ho (move_step _), fun hu => ?_⟩
    exact (hp (hu.mono (Nat.le_succ k))).grow
      (.of_move (move_step _) ht.top (hu k (Nat.lt_succ_self k)))
  | advanced look tag count _ hs next store pending settled =>
    have hst : Standing (run k m).session.store (run k m).session.pending n
        (m.session.store.forest.preorder n) (m.Undisturbed n (k + 1)) c
        (enteredNodes (m.shown it k)) := ⟨ht, fun hu => hp (hu.mono (Nat.le_succ k))⟩
    obtain ⟨-, -, c', hc', hon'⟩ := hon.take (kept_standing ho look n _ _) count hst
    rw [store, pending, hs]
    exact ⟨_, c', next, hon', hc'⟩

/-- A statement that advances an iteration answers with the blocks that it shows, which are the
renderings of what it enters. -/
theorem Walking.shows {m : Machine} {it : String} {n : NodeId} {k : Nat} {h : List Event}
    (hw : m.Walking it n k)
    (ho : (run k m).session.store.Owned h (run k m).session.pending)
    (hr : (run k m).rebegins it = false) :
    (∀ tag count, (run k m).Advances it tag count → (run k m).step.settled =
      some (tag, .ok (.value (.list (answerOf ((run k m).showings it) count))))) ∧
    ∀ x ∈ (run k m).showings it, x.2 = (run k m).session.store.rendering
      ((run k m).session.store.optionsOf n).emitCustomProperties.truthy x.1 := by
  obtain ⟨i, c, hi, hon, hst⟩ := hw
  cases walkCases hi hr with
  | still idle hs => exact ⟨fun tag count ha => absurd ha (idle tag count), by simp [hs]⟩
  | advanced look tag count only hs _ _ _ settled =>
    obtain ⟨htake, hf, -⟩ := hon.take (kept_standing ho look n _ _) count hst
    rw [hs]
    refine ⟨fun tag' count' ha => ?_, hf⟩
    obtain ⟨rfl, rfl⟩ := only tag' count' ha
    rw [settled, htake]
    rfl

/-- An iteration that has ended stays where it is and shows nothing. -/
theorem ended_step {m : Machine} {it : String}
    (hi : m.session.iterations.find? it = some .ended) (hr : m.rebegins it = false) :
    m.step.session.iterations.find? it = some .ended ∧ m.showings it = [] := by
  cases walkCases hi hr with
  | still _ hs same => exact ⟨same, hs⟩
  | advanced look tag count _ hs next =>
    rw [Iteration.take_ended] at next
    exact ⟨next, hs.trans (Iteration.showings_ended count)⟩

/-- What an iteration over a tree comes to in so many steps, whatever else happens between its
steps. -/
structure WalksLazily (m : Machine) (it : String) (n : NodeId) (k : Nat) : Prop where
  /-- a statement that advances the iteration answers with the blocks that it shows -/
  answers : ∀ i < k, ∀ tag count, (run i m).Advances it tag count →
    (run (i + 1) m).settled =
      some (tag, .ok (.value (.list (answerOf ((run i m).showings it) count))))
  /-- what a rule set shows is its rendering at the moment when it is entered -/
  blocks : ∀ i < k, ∀ x ∈ (run i m).showings it,
    x.2 = (run i m).session.store.rendering
      ((run i m).session.store.optionsOf n).emitCustomProperties.truthy x.1
  /-- no rule set is entered twice -/
  once : (enteredNodes (m.shown it k)).Nodup
  /-- once the iteration has ended, unless a rule set of the tree was emptied by then, what was
  entered stands in the tree in the same order, and all that was there at first was entered -/
  order : ∀ i ≤ k, (run i m).session.iterations.find? it = some .ended → m.Undisturbed n i →
    (enteredNodes (m.shown it i)).Sublist ((run i m).session.store.forest.preorder n) ∧
      ∀ x ∈ m.session.store.forest.preorder n, x ∈ enteredNodes (m.shown it i)
  /-- once the iteration has ended it has ended for good, and shows nothing any more -/
  ended : ∀ i j, i ≤ j → j ≤ k → (run i m).session.iterations.find? it = some .ended →
    (run j m).session.iterations.find? it = some .ended ∧ m.shown it j = m.shown it i

/-- In every state of a script, an iteration over a tree of texts that has not been advanced yet
walks lazily, for as long as no other iteration is begun under its name. -/
theorem walksLazily (s : Script) (j k : Nat) (it : String) (n : NodeId)
    (start : (run j (load s)).session.iterations.find? it = some (.blocks (.start n)))
    (text : ((run j (load s)).session.store.get n).selector.isText = true)
    (kept : ∀ i < k, (run i (run j (load s))).rebegins it = false) :
    (run j (load s)).WalksLazily it n k := by
  -- the states from here on are states of the script, and so are owned
  have howned (i : Nat) := owned s (j + i)
  simp only [run_add] at howned
  generalize run j (load s) = m at *
  have hwalk : ∀ i ≤ k, m.Walking it n i := by
    intro i hi
    induction i with
    | zero => exact .start start text
    | succ i ih => exact (ih (Nat.le_of_lt hi)).step (howned i) (kept i hi)
  have hshows (i : Nat) (hi : i < k) := (hwalk i (Nat.le_of_lt hi)).shows (howned i) (kept i hi)
  exact
    { answers := by
        intro i hi tag count ha
        rw [run_step]
        exact (hshows i hi).1 tag count ha
      blocks := by
        intro i hi
        exact (hshows i hi).2
      once := by
        obtain ⟨i, c, -, -, ht, -⟩ := hwalk k (Nat.le_refl k)
        exact ht.once.sublist (List.sublist_append_left _ _)
      order := by
        intro i hi he hu
        obtain ⟨i', c, hi', hon, -, hp⟩ := hwalk i hi
        -- an iteration that has ended stands where nothing remains
        rcases hon with rfl | ⟨-, rfl⟩
        · cases hi'.symm.trans he
        · exact (hp hu).at_end
      ended := by
        intro i j hij
        induction hij with
        | refl =>
          intro _ he
          exact ⟨he, rfl⟩
        | @step j hij ih =>
          intro hj he
          obtain ⟨hend, hs⟩ := ih (Nat.le_of_succ_le hj) he
          obtain ⟨hnext, hshow⟩ := ended_step hend (kept j hj)
          rw [run_step, shown_succ, hshow, List.append_nil]
          exact ⟨hnext, hs⟩ }

end Machine

/-- A script that adds to a tree while an iteration walks over it, and once more after its end. -/
def Script.growing : Script where
  steps := [.mk (.build (.text "a") (.inline [
      .mk (.write (.enclosing 0) (.text "x;")) none none,
      .mk (.select (.enclosing 0) "select" (some (.text ":b")) (some (.inline [
        .mk (.write (.enclosing 0) (.text "y;")) none none]))) none none])
      none []) (some "root") none,
    .mk (.iterate (.handle "root") .blocks "walk") none none,
    .mk (.advance "walk" 1) none none,
    .mk (.select (.handle "root") "select" (some (.text ":c")) (some (.inline []))) none none,
    .mk (.advance "walk" 3) none none,
    .mk (.select (.handle "root") "select" (some (.text ":d")) (some (.inline []))) none none,
    .mk (.advance "walk" 1) none none]
  generators := .empty
  logs := false

theorem Machine.walksLazily_growing : (run 11 (load .growing)).WalksLazily "walk" 0 16 :=
  walksLazily .growing 11 16 "walk" 0
    (Iteration.eq_some_blocks_of_cursor? (by decide +kernel)) (by decide +kernel)
    (by decide +kernel)

end RuleTree
