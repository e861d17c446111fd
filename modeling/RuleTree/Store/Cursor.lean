import RuleTree.Store.Block

/-!
# Cursors

Iterations over the rule blocks of a tree that may go on while the tree changes.

* `Visit`, `Cursor`: the rule sets on the way down, each not yet entered or at some position of its
  children; the innermost comes first;
* `Cursor.step`: one step: a rule set that is entered shows its block as it is at that moment, and
  children are looked up by position in the list as it is at that moment;
* `Cursor.work`: what remains to be done while nothing changes, which every step lowers by one;
* `Cursor.next`: steps up to the next block;
* `Cursor.drain`: all blocks that remain while nothing changes.

A cursor with nothing left is exhausted for good.
-/

namespace RuleTree

/-- A rule set on the way down. -/
inductive Visit
  | enter (n : NodeId)
  | resume (n : NodeId) (position : Nat)
  deriving DecidableEq

/-- The rule set of a visit. -/
def Visit.node : Visit → NodeId
  | enter n => n
  | resume n _ => n

/-- An iteration over rule blocks. -/
abbrev Cursor := List Visit

namespace Cursor

/-- An iteration that has not begun. -/
def start (n : NodeId) : Cursor := [.enter n]

/-- One step of an iteration, and the block that it shows if any. -/
def step (s : Store) (look : Appearance) : Cursor → Except Error (Cursor × Option String)
  | [] => .ok ([], none)
  | .enter n :: rest => (s.block? look n).map fun block => (.resume n 0 :: rest, block)
  | .resume n i :: rest =>
    match (s.get n).children[i]? with
    | some c => .ok (.enter c :: .resume n (i + 1) :: rest, none)
    | none => .ok (rest, none)

/-- The number of steps that a visit takes while nothing changes. -/
def visitWork (s : Store) : Visit → Nat
  | .enter n => 3 * (s.forest.preorder n).length - 1
  | .resume n i => 1 + 3 * (((s.get n).children.drop i).flatMap s.forest.preorder).length

/-- The number of steps that an iteration takes while nothing changes. -/
def work (s : Store) : Cursor → Nat
  | [] => 0
  | v :: rest => visitWork s v + work s rest

theorem visitWork_enter (s : Store) (n : NodeId) :
    visitWork s (.enter n) = 1 + visitWork s (.resume n 0) := by
  simp only [visitWork, List.drop_zero]
  rw [Forest.preorder_eq, List.length_cons]
  show 3 * (((s.get n).children.flatMap s.forest.preorder).length + 1) - 1 = _
  omega

theorem visitWork_resume_some {s : Store} {n c : NodeId} {i : Nat}
    (h : (s.get n).children[i]? = some c) :
    visitWork s (.resume n i) =
      1 + (visitWork s (.enter c) + visitWork s (.resume n (i + 1))) := by
  obtain ⟨hi, hc⟩ := List.getElem?_eq_some_iff.1 h
  have hp : 0 < (s.forest.preorder c).length := by rw [Forest.preorder_eq]; simp
  simp only [visitWork]
  rw [List.drop_eq_getElem_cons hi, List.flatMap_cons, List.length_append, hc]
  omega

theorem visitWork_resume_none {s : Store} {n : NodeId} {i : Nat}
    (h : (s.get n).children[i]? = none) : visitWork s (.resume n i) = 1 := by
  simp only [visitWork]
  rw [List.drop_eq_nil_of_le (List.getElem?_eq_none_iff.1 h)]
  rfl

/-- A step lowers the remaining work by one. -/
theorem work_step {s : Store} {look : Appearance} {c c' : Cursor} {block : Option String}
    (hc : c ≠ []) (h : step s look c = .ok (c', block)) : work s c = work s c' + 1 := by
  cases c with
  | nil => exact absurd rfl hc
  | cons v rest =>
    cases v with
    | enter n =>
      simp only [step] at h
      cases hb : s.block? look n with
      | error e => rw [hb] at h; cases h
      | ok b =>
        rw [hb] at h
        cases h
        simp only [work, visitWork_enter]
        omega
    | resume n i =>
      simp only [step] at h
      cases hi : (s.get n).children[i]? with
      | some c =>
        rw [hi] at h
        cases h
        simp only [work, visitWork_resume_some hi]
        omega
      | none =>
        rw [hi] at h
        cases h
        simp only [work, visitWork_resume_none hi]
        omega

/-- The next block of an iteration; none once it is exhausted. -/
def next (s : Store) (look : Appearance) (c : Cursor) : Except Error (Option String × Cursor) :=
  if _hc : c = [] then .ok (none, [])
  else match _hs : step s look c with
    | .error e => .error e
    | .ok (c', some block) => .ok (some block, c')
    | .ok (c', none) => next s look c'
termination_by work s c
decreasing_by
  have h := work_step _hc _hs
  omega

/-- The blocks that remain while nothing changes. -/
def drain (s : Store) (look : Appearance) (c : Cursor) : Except Error (List String) :=
  if _hc : c = [] then .ok []
  else match _hs : step s look c with
    | .error e => .error e
    | .ok (c', some block) => (drain s look c').map (block :: ·)
    | .ok (c', none) => drain s look c'
termination_by work s c
decreasing_by
  all_goals
    have h := work_step _hc _hs
    omega

/-- The rule sets that an iteration holds on to. -/
def nodes (c : Cursor) : List NodeId := c.map Visit.node

@[simp] theorem next_nil (s : Store) (look : Appearance) : next s look [] = .ok (none, []) := by
  unfold next
  rw [dif_pos rfl]

@[simp] theorem drain_nil (s : Store) (look : Appearance) : drain s look [] = .ok [] := by
  unfold drain
  rw [dif_pos rfl]

end Cursor

end RuleTree
