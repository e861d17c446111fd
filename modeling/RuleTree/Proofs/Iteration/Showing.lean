import RuleTree.Proofs.Blocks.Remaining

/-!
# What an iteration shows

* `Showing`: a rule set that is entered, and the block that it shows if any;
* `Cursor.showings`, `Iteration.showings`: what is entered on the way to the next block, or while
  several are taken;
* `shownBlocks`: the blocks among what is shown;
* `Cursor.next_preserves`: what every step of a cursor keeps true of the cursor and what it has
  entered is true after the next block, which is the one that was shown;
* `Iteration.take_preserves`: the same for several blocks;
* `Iteration.entered_eq_preorder`: the whole tree is entered in order.
-/

namespace RuleTree

/-- A rule set that an iteration enters, and the block that it shows if any. -/
abbrev Showing := NodeId × Option String

/-- The blocks that are shown. -/
def shownBlocks (showings : List Showing) : List String := showings.filterMap Prod.snd

/-- The rule sets that are entered. -/
def enteredNodes (showings : List Showing) : List NodeId := showings.map Prod.fst

theorem shownBlocks_append (xs ys : List Showing) :
    shownBlocks (xs ++ ys) = shownBlocks xs ++ shownBlocks ys := List.filterMap_append

theorem enteredNodes_append (xs ys : List Showing) :
    enteredNodes (xs ++ ys) = enteredNodes xs ++ enteredNodes ys := List.map_append

/-- What taking so many blocks comes to: those that are shown, and nothing in the place of those
that are not there. -/
def answerOf (showings : List Showing) (count : Nat) : List Datum :=
  (shownBlocks showings).map .text ++
    List.replicate (count - (shownBlocks showings).length) .null

theorem answerOf_append {xs ys : List Showing} {block : String} (h : shownBlocks xs = [block])
    (count : Nat) : answerOf (xs ++ ys) (count + 1) = .text block :: answerOf ys count := by
  unfold answerOf
  rw [shownBlocks_append, h]
  simp

namespace Cursor

/-- What a cursor enters up to the next block. -/
def showings (s : Store) (look : Appearance) (c : Cursor) : List Showing :=
  if _hc : c = [] then []
  else match _hs : step s look c with
    | .error _ => []
    | .ok (_, some block) => (entering? c).toList.map (·, some block)
    | .ok (c', none) => (entering? c).toList.map (·, none) ++ showings s look c'
termination_by work s c
decreasing_by
  have h := work_step _hc _hs
  omega

variable {s : Store} {look : Appearance} {c c' : Cursor}

@[simp] theorem showings_nil : showings s look [] = [] := by
  unfold showings
  rw [dif_pos rfl]

theorem showings_of_step {block : String} (hc : c ≠ [])
    (h : step s look c = .ok (c', some block)) :
    showings s look c = (entering? c).toList.map (·, some block) := by
  rw [showings, dif_neg hc]
  split
  · rename_i e he
    cases h.symm.trans he
  · rename_i d b hb
    cases h.symm.trans hb
    rfl
  · rename_i d hb
    cases h.symm.trans hb

theorem showings_of_step_none (hc : c ≠ []) (h : step s look c = .ok (c', none)) :
    showings s look c = (entering? c).toList.map (·, none) ++ showings s look c' := by
  conv => lhs; rw [showings, dif_neg hc]
  split
  · rename_i e he
    cases h.symm.trans he
  · rename_i d b hb
    cases h.symm.trans hb
  · rename_i d hb
    cases h.symm.trans hb
    rfl

/-- Being kept by the steps of a cursor, with the rule sets that were entered, and knowing the
blocks of those that are entered next. -/
structure Kept (s : Store) (look : Appearance) (f : NodeId → Option String)
    (I : Cursor → List NodeId → Prop) : Prop where
  block : ∀ {c seen n}, I c seen → entering? c = some n → s.block? look n = .ok (f n)
  step : ∀ {c seen}, c ≠ [] → I c seen → I (forward s c) (seen ++ (entering? c).toList)

variable {f : NodeId → Option String} {I : Cursor → List NodeId → Prop}

/-- What every step keeps is kept up to the next block, which is the one that is shown. -/
theorem next_preserves (hI : Kept s look f I) {seen : List NodeId} (h : I c seen) :
    ∃ block c', next s look c = .ok (block, c') ∧
      I c' (seen ++ enteredNodes (showings s look c)) ∧ (block = none → c' = []) ∧
      shownBlocks (showings s look c) = block.toList ∧
      ∀ x ∈ showings s look c, x.2 = f x.1 := by
  induction c using forwardInduction s generalizing seen with
  | nil => exact ⟨none, [], next_nil s look, by simpa [enteredNodes] using h, by simp,
      by simp [shownBlocks], by simp⟩
  | step c hc ih =>
    have hs := step_eq look fun n hn => hI.block h hn
    have hn := hI.step hc h
    cases hb : (entering? c).bind f with
    | some block =>
      rw [hb] at hs
      obtain ⟨n, he, hf⟩ := Option.bind_eq_some_iff.1 hb
      refine ⟨some block, forward s c, next_of_step hs, ?_, by simp, ?_, ?_⟩
      · rw [showings_of_step hc hs, he]
        rw [he] at hn
        exact hn
      · rw [showings_of_step hc hs, he]
        rfl
      · rw [showings_of_step hc hs, he]
        simp [hf]
    | none =>
      rw [hb] at hs
      -- what this step enters, if anything, shows nothing, and the way goes on
      obtain ⟨block, c', hnext, hI', hlast, hblocks, hf⟩ := ih hn
      have hself : ∀ x ∈ (entering? c).toList.map ((·, none) : NodeId → Showing),
          x.2 = f x.1 := by
        cases he : entering? c with
        | none => simp
        | some n =>
          rw [he] at hb
          simpa using Eq.symm hb
      rw [next_of_step_none hc hs, showings_of_step_none hc hs]
      refine ⟨block, c', hnext, ?_, hlast, ?_, ?_⟩
      · have hm : enteredNodes ((entering? c).toList.map (·, none)) = (entering? c).toList := by
          cases entering? c <;> rfl
        rw [enteredNodes_append, hm, ← List.append_assoc]
        exact hI'
      · have hm : shownBlocks ((entering? c).toList.map (·, none)) = [] := by
          cases entering? c <;> rfl
        rw [shownBlocks_append, hm, hblocks, List.nil_append]
      · exact fun x hx => (List.mem_append.1 hx).elim (hself x) (hf x)

end Cursor

namespace Iteration

/-- What an iteration over blocks enters while so many are taken. -/
def showings (s : Store) (look : Appearance) (count : Nat) (i : Iteration) : List Showing :=
  match count, i with
  | count + 1, .blocks c =>
    c.showings s look ++ showings s look count (Iteration.next s look (.blocks c)).2
  | _, _ => []

variable {s : Store} {look : Appearance} {f : NodeId → Option String}
  {I : Cursor → List NodeId → Prop}

@[simp] theorem showings_ended (count : Nat) : showings s look count .ended = [] := by
  cases count <;> rfl

/-- What every step keeps is kept while several blocks are taken, which are the ones that are
shown. -/
theorem take_preserves (hI : Cursor.Kept s look f I) (count : Nat) {c : Cursor}
    {seen : List NodeId} (h : I c seen) :
    ((blocks c).take s look count).1 = .ok (answerOf (showings s look count (.blocks c)) count) ∧
    (∀ x ∈ showings s look count (.blocks c), x.2 = f x.1) ∧
    ∃ c', I c' (seen ++ enteredNodes (showings s look count (.blocks c))) ∧
      (((blocks c).take s look count).2 = .blocks c' ∨
        ((blocks c).take s look count).2 = .ended ∧ c' = []) := by
  induction count generalizing c seen with
  | zero => exact ⟨rfl, by simp [showings], c, by simpa [showings, enteredNodes] using h, .inl rfl⟩
  | succ count ih =>
    obtain ⟨block, c', hnext, hI', hlast, hblocks, hf⟩ := Cursor.next_preserves hI h
    cases block with
    | none =>
      cases hlast rfl
      have hn : (blocks c).next s look = (.ok none, ended) := by simp only [Iteration.next, hnext]
      have hs : showings s look (count + 1) (.blocks c) = c.showings s look := by
        rw [showings, hn, showings_ended, List.append_nil]
      have ht : (blocks c).take s look (count + 1) =
          (.ok (List.replicate (count + 1) .null), ended) := by
        simp only [take, hn, take_ended, Except.map]
        rfl
      rw [hs, ht]
      refine ⟨?_, hf, [], hI', .inr ⟨rfl, rfl⟩⟩
      rw [answerOf, hblocks]
      rfl
    | some block =>
      have hn : (blocks c).next s look = (.ok (some (.text block)), blocks c') := by
        simp only [Iteration.next, hnext]
      have hs : showings s look (count + 1) (.blocks c) =
          c.showings s look ++ showings s look count (.blocks c') := by
        rw [showings, hn]
      obtain ⟨hr, hf', d, hd, hj⟩ := ih hI'
      have ht : (blocks c).take s look (count + 1) =
          (((blocks c').take s look count).1.map (.text block :: ·),
            ((blocks c').take s look count).2) := by
        simp only [take, hn]
        rfl
      rw [hs, ht]
      refine ⟨?_, fun x hx => (List.mem_append.1 hx).elim (hf x) (hf' x), d, ?_, hj⟩
      · rw [hr, answerOf_append hblocks]
        rfl
      · rw [enteredNodes_append, ← List.append_assoc]
        exact hd

/-- Standing where a cursor stands; an iteration that has ended stands where nothing is left. -/
def On (i : Iteration) (c : Cursor) : Prop := i = .blocks c ∨ i = .ended ∧ c = []

/-- What every step keeps is kept while several blocks are taken, be it after the end. -/
theorem On.take {i : Iteration} {c : Cursor} (hi : i.On c) (hI : Cursor.Kept s look f I)
    (count : Nat) {seen : List NodeId} (h : I c seen) :
    (i.take s look count).1 = .ok (answerOf (i.showings s look count) count) ∧
    (∀ x ∈ i.showings s look count, x.2 = f x.1) ∧
    ∃ c', I c' (seen ++ enteredNodes (i.showings s look count)) ∧
      (i.take s look count).2.On c' := by
  rcases hi with rfl | ⟨rfl, rfl⟩
  · exact take_preserves hI count h
  · rw [take_ended, showings_ended]
    exact ⟨rfl, by simp, [], by simpa [enteredNodes] using h, .inr ⟨rfl, rfl⟩⟩

/-- Taken to its end, an iteration over the blocks of a tree has entered its rule sets in order. -/
theorem entered_eq_preorder {n : NodeId}
    (h : ∀ x ∈ s.forest.preorder n, s.block? look x = .ok (f x)) :
    ∃ count, ((blocks (.start n)).take s look count).2 = .ended ∧
      enteredNodes (showings s look count (.blocks (.start n))) = s.forest.preorder n := by
  have hr := Cursor.remaining_start s n
  -- what was entered and what remains make up the tree
  let I (c : Cursor) (seen : List NodeId) : Prop := seen ++ c.remaining s = s.forest.preorder n
  have hI : Cursor.Kept s look f I := {
    block := fun {c seen x} hi hx => h x (by
      rw [← show seen ++ c.remaining s = _ from hi]
      exact List.mem_append_right _ (Cursor.mem_remaining_of_entering hx))
    step := fun {c seen} _ hi => by
      show seen ++ _ ++ _ = _
      rw [List.append_assoc, ← Cursor.remaining_forward]
      exact hi }
  have hy : Yields s look (.blocks (.start n)) ((s.forest.preorder n).filterMap f) :=
    yields_blocks (hr ▸ h) (by rw [hr])
  have hend := ended_of_yields hy (Nat.lt_succ_self _)
  have hstart : I (.start n) [] := (List.nil_append _).trans hr
  obtain ⟨-, -, c, hc, hj⟩ :=
    take_preserves hI (((s.forest.preorder n).filterMap f).length + 1) hstart
  refine ⟨_, hend, ?_⟩
  rcases hj with hj | ⟨-, rfl⟩
  · cases hend.symm.trans hj
  · have hc' : _ ++ [] = _ := hc
    rwa [List.append_nil, List.nil_append] at hc'

end Iteration

end RuleTree
