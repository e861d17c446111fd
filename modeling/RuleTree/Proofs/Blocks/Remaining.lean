import RuleTree.Proofs.Tree.Preorder
import RuleTree.Store.Iteration

/-!
# What an iteration has still to visit

* `Cursor.remaining`: the rule sets that a cursor will enter if nothing changes, in order;
* `Cursor.entering?`, `Cursor.forward`: the rule set that the next step enters, and the cursor after
  it; `Cursor.step_eq` puts them together;
* `Cursor.remaining_forward`: a step takes nothing off what remains but the rule set it enters;
* `Cursor.next_spec`, `Cursor.drain_eq`: what comes next, and all that comes;
* `Iteration.Yields`: yielding some blocks one after another and then nothing for good;
* `Iteration.yields_blocks`, `Iteration.take_of_yields`: an iteration yields the blocks of what
  remains, however many are taken at a time;
* `Iteration.ended_of_yields`: and ends after them.
-/

namespace RuleTree

/-- The rule sets that are still to be entered on behalf of a visit. -/
def Visit.remaining (s : Store) : Visit → List NodeId
  | enter n => s.forest.preorder n
  | resume n i => ((s.get n).children.drop i).flatMap s.forest.preorder

namespace Cursor

/-- The rule sets that are still to be entered. -/
def remaining (s : Store) (c : Cursor) : List NodeId := c.flatMap (Visit.remaining s)

/-- The rule set that the next step enters. -/
def entering? : Cursor → Option NodeId
  | .enter n :: _ => some n
  | _ => none

/-- The cursor after a step that does not fail. -/
def forward (s : Store) : Cursor → Cursor
  | [] => []
  | .enter n :: rest => .resume n 0 :: rest
  | .resume n i :: rest =>
    match (s.get n).children[i]? with
    | some c => .enter c :: .resume n (i + 1) :: rest
    | none => rest

variable {s : Store} {look : Appearance} {c c' : Cursor}

theorem forward_resume_some {n d : NodeId} {i : Nat} {rest : Cursor}
    (h : (s.get n).children[i]? = some d) :
    forward s (.resume n i :: rest) = .enter d :: .resume n (i + 1) :: rest := by
  rw [forward, h]

theorem forward_resume_none {n : NodeId} {i : Nat} {rest : Cursor}
    (h : (s.get n).children[i]? = none) : forward s (.resume n i :: rest) = rest := by
  rw [forward, h]

/-- A step goes forward, and shows the block of the rule set that it enters. -/
theorem step_eq {f : NodeId → Option String} (look : Appearance)
    (hf : ∀ n, entering? c = some n → s.block? look n = .ok (f n)) :
    step s look c = .ok (forward s c, (entering? c).bind f) := by
  match c with
  | [] => rfl
  | .enter n :: rest =>
    simp only [step]
    rw [hf n rfl]
    rfl
  | .resume n i :: rest =>
    simp only [step, forward]
    cases (s.get n).children[i]? <;> rfl

theorem remaining_cons (s : Store) (v : Visit) (c : Cursor) :
    remaining s (v :: c) = v.remaining s ++ remaining s c := List.flatMap_cons

/-- A step takes nothing off what remains but the rule set that it enters. -/
theorem remaining_forward (s : Store) (c : Cursor) :
    remaining s c = (entering? c).toList ++ remaining s (forward s c) := by
  match c with
  | [] => rfl
  | .enter n :: rest =>
    show remaining s (.enter n :: rest) = n :: remaining s (.resume n 0 :: rest)
    rw [remaining_cons, remaining_cons]
    simp only [Visit.remaining, List.drop_zero]
    rw [Forest.preorder_eq]
    rfl
  | .resume n i :: rest =>
    show _ = remaining s (forward s (.resume n i :: rest))
    rw [remaining_cons]
    cases hi : (s.get n).children[i]? with
    | some d =>
      obtain ⟨hlt, rfl⟩ := List.getElem?_eq_some_iff.1 hi
      rw [forward_resume_some hi, remaining_cons, remaining_cons, ← List.append_assoc]
      simp only [Visit.remaining]
      rw [List.drop_eq_getElem_cons hlt, List.flatMap_cons]
    | none =>
      rw [forward_resume_none hi]
      simp only [Visit.remaining]
      rw [List.drop_eq_nil_of_le (List.getElem?_eq_none_iff.1 hi)]
      rfl

theorem remaining_start (s : Store) (n : NodeId) :
    remaining s (start n) = s.forest.preorder n := by
  unfold remaining start
  rw [List.flatMap_singleton]
  rfl

/-! ### Many steps -/

theorem next_of_step {block : String} (h : step s look c = .ok (c', some block)) :
    next s look c = .ok (some block, c') := by
  have hc : c ≠ [] := by
    rintro rfl
    cases h
  rw [next, dif_neg hc]
  split <;> simp_all

theorem next_of_step_error {e : Error} (h : step s look c = .error e) :
    next s look c = .error e := by
  have hc : c ≠ [] := by
    rintro rfl
    cases h
  rw [next, dif_neg hc]
  split <;> simp_all

theorem next_of_step_none (hc : c ≠ []) (h : step s look c = .ok (c', none)) :
    next s look c = next s look c' := by
  conv => lhs; rw [next, dif_neg hc]
  split <;> simp_all

theorem drain_of_step {block : Option String} (hc : c ≠ [])
    (h : step s look c = .ok (c', block)) :
    drain s look c = (drain s look c').map (block.toList ++ ·) := by
  conv => lhs; rw [drain, dif_neg hc]
  split
  · rename_i e he
    cases h.symm.trans he
  · rename_i d b hb
    cases h.symm.trans hb
    rfl
  · rename_i d hb
    cases h.symm.trans hb
    cases drain s look c' <;> rfl

/-- A step lowers the remaining work. -/
theorem work_forward_lt (s : Store) (hc : c ≠ []) : work s (forward s c) < work s c := by
  match c with
  | .enter n :: rest =>
    simp only [forward, work, visitWork_enter]
    omega
  | .resume n i :: rest =>
    cases hi : (s.get n).children[i]? with
    | some d =>
      rw [forward_resume_some hi]
      simp only [work, visitWork_resume_some hi]
      omega
    | none =>
      rw [forward_resume_none hi]
      simp only [work, visitWork_resume_none hi]
      omega

/-- Induction along the steps of a cursor. -/
@[elab_as_elim]
theorem forwardInduction (s : Store) {motive : Cursor → Prop} (nil : motive [])
    (step : ∀ c, c ≠ [] → motive (forward s c) → motive c) (c : Cursor) : motive c :=
  if hc : c = [] then hc ▸ nil
  else
    have := work_forward_lt s hc
    step c hc (forwardInduction s nil step (forward s c))
termination_by work s c

/-- What is entered next remains. -/
theorem mem_remaining_of_entering {n : NodeId} (h : entering? c = some n) :
    n ∈ remaining s c := by
  rw [remaining_forward, h]
  exact List.mem_cons_self

theorem mem_remaining_of_forward {n : NodeId} (h : n ∈ remaining s (forward s c)) :
    n ∈ remaining s c := by
  rw [remaining_forward]
  exact List.mem_append_right _ h

theorem filterMap_remaining (f : NodeId → Option String) (s : Store) (c : Cursor) :
    (remaining s c).filterMap f =
      ((entering? c).bind f).toList ++ (remaining s (forward s c)).filterMap f := by
  rw [remaining_forward, List.filterMap_append]
  cases entering? c with
  | none => rfl
  | some n => cases hn : f n <;> simp [hn]

section Shown

/-! ### Many steps -/

variable {f : NodeId → Option String}

/-- All blocks that remain are those of the rule sets that remain. -/
theorem drain_eq (hf : ∀ n ∈ remaining s c, s.block? look n = .ok (f n)) :
    drain s look c = .ok ((remaining s c).filterMap f) := by
  induction c using forwardInduction s with
  | nil => exact drain_nil s look
  | step c hc ih =>
    have hs := step_eq look fun n hn => hf n (mem_remaining_of_entering hn)
    rw [drain_of_step hc hs, ih fun n hn => hf n (mem_remaining_of_forward hn),
      filterMap_remaining f s c]
    rfl

/-- What comes next is the first block that remains, and the others remain after it. -/
theorem next_spec (hf : ∀ n ∈ remaining s c, s.block? look n = .ok (f n)) :
    (remaining s c).filterMap f = [] ∧ next s look c = .ok (none, []) ∨
      ∃ block c', next s look c = .ok (some block, c') ∧
        (remaining s c).filterMap f = block :: (remaining s c').filterMap f ∧
        ∀ n ∈ remaining s c', n ∈ remaining s c := by
  induction c using forwardInduction s with
  | nil => exact .inl ⟨rfl, next_nil s look⟩
  | step c hc ih =>
    have hs := step_eq look fun n hn => hf n (mem_remaining_of_entering hn)
    rw [filterMap_remaining f s c]
    cases hb : (entering? c).bind f with
    | some block =>
      rw [hb] at hs
      exact .inr ⟨block, forward s c, next_of_step hs, rfl, fun n => mem_remaining_of_forward⟩
    | none =>
      rw [hb] at hs
      rw [next_of_step_none hc hs]
      rcases ih fun n hn => hf n (mem_remaining_of_forward hn) with h | ⟨b, c', hn, hr, hm⟩
      · exact .inl h
      · exact .inr ⟨b, c', hn, hr, fun n h => mem_remaining_of_forward (hm n h)⟩

end Shown

end Cursor

/-! ### Iterations -/

/-- Yielding some blocks one after another, and nothing after them. -/
inductive Iteration.Yields (s : Store) (look : Appearance) : Iteration → List String → Prop
  | ended : Yields s look ended []
  | last {i : Iteration} (h : i.next s look = (.ok none, Iteration.ended)) : Yields s look i []
  | next {i j : Iteration} {block : String} {blocks : List String}
    (h : i.next s look = (.ok (some (.text block)), j)) (hj : Yields s look j blocks) :
    Yields s look i (block :: blocks)

namespace Iteration

variable {s : Store} {look : Appearance}

/-- An iteration over blocks yields those of the rule sets that remain. -/
theorem yields_blocks {f : NodeId → Option String} {blocks : List String} {c : Cursor}
    (hf : ∀ n ∈ c.remaining s, s.block? look n = .ok (f n))
    (hb : (c.remaining s).filterMap f = blocks) : Yields s look (.blocks c) blocks := by
  induction blocks generalizing c with
  | nil =>
    rcases Cursor.next_spec hf with ⟨-, hn⟩ | ⟨block, c', -, hr, -⟩
    · exact .last (by simp only [Iteration.next, hn])
    · cases hr.symm.trans hb
  | cons block blocks ih =>
    rcases Cursor.next_spec hf with ⟨hr, -⟩ | ⟨block', c', hn, hr, hm⟩
    · cases hr.symm.trans hb
    · obtain ⟨rfl, hr⟩ := List.cons.inj (hr.symm.trans hb)
      exact .next (by simp only [Iteration.next, hn]) (ih (fun n h => hf n (hm n h)) hr)

/-- Taking so many gives so many of the blocks, and nothing in the place of those that are not
there; after that the others are yielded. -/
theorem take_of_yields (count : Nat) {i : Iteration} {blocks : List String}
    (h : Yields s look i blocks) :
    ∃ j, i.take s look count = (.ok ((blocks.take count).map .text ++
      List.replicate (count - blocks.length) .null), j) ∧ Yields s look j (blocks.drop count) := by
  induction count generalizing i blocks with
  | zero => exact ⟨i, by simp [take], by simpa using h⟩
  | succ count ih =>
    cases h with
    | ended =>
      refine ⟨.ended, ?_, .ended⟩
      rw [take_ended]
      simp
    | last h =>
      refine ⟨.ended, ?_, .ended⟩
      simp only [take, h, take_ended, Except.map]
      simp [List.replicate_succ]
    | next h hj =>
      obtain ⟨j, ht, hy⟩ := ih hj
      refine ⟨j, ?_, hy⟩
      simp only [take, h, ht, Except.map]
      simp

/-- Once more has been taken than is yielded, an iteration has ended. -/
theorem ended_of_yields {count : Nat} {i : Iteration} {blocks : List String}
    (h : Yields s look i blocks) (hc : blocks.length < count) :
    (i.take s look count).2 = .ended := by
  induction count generalizing i blocks with
  | zero => exact absurd hc (Nat.not_lt_zero _)
  | succ count ih =>
    cases h with
    | ended => rw [take_ended]
    | last h => simp only [take, h, take_ended]
    | next h hj =>
      simp only [take, h]
      exact ih hj (Nat.lt_of_succ_lt_succ hc)

end Iteration

end RuleTree
