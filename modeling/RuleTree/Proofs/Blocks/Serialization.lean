import Mathlib.Algebra.GroupWithZero.Nat
import RuleTree.Proofs.Blocks.Remaining
import RuleTree.Proofs.Blocks.Rendering

/-!
# The text of a tree

* `Store.Owned.blocks_eq`, `Store.Owned.css_eq`: the blocks of a tree are its renderings, and its
  text is theirs;
* `Session.advanceAll`: an iteration advanced several times;
* `Session.Delivers`: giving some blocks however an iteration is advanced, and nothing after them;
* `Session.Serializes`: every way to read the text of a rule set gives the same blocks;
* `Machine.serializes`: in every state of a script the blocks that are read are the renderings.
-/

namespace RuleTree

namespace Store.Owned

variable {s : Store} {h : List Event} {pending : List NodeId} {n : NodeId}

/-- All blocks of a tree are its renderings. -/
theorem blocks_eq (ho : s.Owned h pending) (hn : (s.get n).selector.isText = true)
    (hostName : HostId → String) : s.blocks hostName n = .ok (s.renderings n) := by
  rw [blocks, Cursor.drain_eq (f := s.rendering (s.optionsOf n).emitCustomProperties.truthy),
    Cursor.remaining_start]
  · rfl
  · rw [Cursor.remaining_start]
    exact fun x hx => ho.block?_of_mem_preorder hn hx _

/-- The text of a tree is that of its renderings. -/
theorem css_eq (ho : s.Owned h pending) (hn : (s.get n).selector.isText = true)
    (hostName : HostId → String) : s.css hostName n = .ok (String.join (s.renderings n)) := by
  rw [css, ho.blocks_eq hn]
  rfl

/-- An iteration that has not begun yields the renderings. -/
theorem yields_start (ho : s.Owned h pending) (hn : (s.get n).selector.isText = true)
    (look : Appearance) :
    Iteration.Yields s look (.blocks (.start n)) (s.renderings n) := by
  refine Iteration.yields_blocks
    (f := s.rendering (s.optionsOf n).emitCustomProperties.truthy) ?_ ?_
  · rw [Cursor.remaining_start]
    exact fun x hx => ho.block?_of_mem_preorder hn hx _
  · rw [Cursor.remaining_start]
    rfl

end Store.Owned

namespace Session

/-- The session after an iteration was advanced several times. -/
def advanceAll (σ : Session) (name : String) (counts : List Nat) : Session :=
  counts.foldl (fun σ count => (σ.advance name count).session) σ

/-- Giving some blocks one after another, however many are asked for at a time, and nothing after
them. -/
def Delivers (σ : Session) (name : String) (blocks : List String) : Prop :=
  ∀ (counts : List Nat) (count : Nat),
    ((σ.advanceAll name counts).advance name count).result? =
      some (.ok (.value (.list (((blocks.drop counts.sum).take count).map .text ++
        List.replicate (count - (blocks.drop counts.sum).length) .null))))

/-- Advancing an iteration gives what it yields, and leaves an iteration that yields the others. -/
theorem advance_of_yields {σ : Session} {name : String} {i : Iteration} {blocks : List String}
    (hi : σ.iterations.find? name = some i) (hy : i.Yields σ.store σ.appearance blocks)
    (count : Nat) :
    (σ.advance name count).result? = some (.ok (.value (.list ((blocks.take count).map .text ++
      List.replicate (count - blocks.length) .null)))) ∧
    ∃ j, (σ.advance name count).session = { σ with iterations := σ.iterations.insert name j } ∧
      j.Yields σ.store σ.appearance (blocks.drop count) := by
  obtain ⟨j, ht, hj⟩ := Iteration.take_of_yields count hy
  unfold advance
  rw [hi]
  simp only [ht]
  exact ⟨rfl, j, rfl, hj⟩

theorem delivers_of_yields {σ : Session} {name : String} {i : Iteration} {blocks : List String}
    (hi : σ.iterations.find? name = some i) (hy : i.Yields σ.store σ.appearance blocks) :
    σ.Delivers name blocks := by
  intro counts
  -- each advance leaves an iteration that yields the blocks that are left over
  induction counts generalizing σ i blocks with
  | nil => exact fun count => (advance_of_yields hi hy count).1
  | cons first counts ih =>
    intro count
    obtain ⟨-, j, hs, hj⟩ := advance_of_yields hi hy first
    have hfind : (σ.advance name first).session.iterations.find? name = some j := by
      rw [hs]
      exact Table.find?_insert_self ..
    have hyields : j.Yields (σ.advance name first).session.store
        (σ.advance name first).session.appearance (blocks.drop first) := by
      rw [hs]
      exact hj
    rw [List.sum_cons, ← List.drop_drop]
    exact ih hfind hyields count

/-- Giving the same blocks however the text of a rule set is read: all at once as a list or end to
end, or by an iteration of either kind that is advanced again and again. -/
structure Serializes (σ : Session) (n : NodeId) (blocks : List String) : Prop where
  list : (σ.read (.node n) .blocks).result? = some (.ok (.value (.list (blocks.map .text))))
  css : (σ.read (.node n) .css).result? = some (.ok (.text (String.join blocks)))
  spelling : (σ.read (.node n) .spelling).result? = some (.ok (.text (String.join blocks)))
  output : σ.output n .css = .ok (.text (String.join blocks))
  iteration : ∀ walk name, (σ.iterate (.node n) walk name).result? = some (.ok .nothing) ∧
    (σ.iterate (.node n) walk name).session.Delivers name blocks

end Session

namespace Machine

/-- In every state of a script, whatever way the text of a tree is read, the blocks are the
renderings of the tree if all its selectors are texts. -/
theorem serializes (s : Script) (k : Nat) (n : NodeId)
    (texts : ∀ x ∈ (run k (load s)).session.store.forest.preorder n,
      ((run k (load s)).session.store.get x).selector.isText = true) :
    (run k (load s)).session.Serializes n ((run k (load s)).session.store.renderings n) := by
  have ho := owned s k
  -- all that matters of the run is that its state is owned
  generalize history k (load s) = h at ho
  generalize (run k (load s)).session.pending = pending at ho
  generalize (run k (load s)).session = σ at *
  have hn := texts n (Forest.mem_preorder_self _ n)
  have hc : σ.css n = .ok (String.join (σ.store.renderings n)) := ho.css_eq hn _
  exact
    { list := by
        show some ((σ.store.blocks σ.hostName n).map _) = _
        rw [ho.blocks_eq hn]
        rfl
      css := by
        show some ((σ.css n).map _) = _
        rw [hc]
        rfl
      spelling := by
        show some ((σ.css n).map _) = _
        rw [hc]
        rfl
      output := by
        show (σ.css n).map _ = _
        rw [hc]
        rfl
      iteration := by
        intro walk name
        rw [Session.iterate_node]
        exact ⟨rfl, Session.delivers_of_yields (Table.find?_insert_self ..) (ho.yields_start hn _)⟩ }

/-- A tree of three rule sets with custom properties and text, one of them with neither. -/
theorem serializes_nesting :
    (run 22 (load .nesting)).session.Serializes 0
      ["a \x7b\n--k: v;\n\x7d\n", "a:b:c \x7b\nx;\x7d\n"] := by
  have texts (x : NodeId) (hx : x ∈ (run 22 (load .nesting)).session.store.forest.preorder 0) :=
    (owned .nesting 22).text_of_mem_preorder (by decide +kernel) hx
  have hpre : (run 22 (load .nesting)).session.store.forest.preorder 0 = [0, 1, 2] := by
    have h₀ : ((run 22 (load .nesting)).session.store.forest.get 0).children = [1] := by
      decide +kernel
    have h₁ : ((run 22 (load .nesting)).session.store.forest.get 1).children = [2] := by
      decide +kernel
    have h₂ : ((run 22 (load .nesting)).session.store.forest.get 2).children = [] := by
      decide +kernel
    rw [Forest.preorder_eq, h₀, List.flatMap_singleton, Forest.preorder_eq, h₁,
      List.flatMap_singleton, Forest.preorder_eq, h₂, List.flatMap_nil]
  have hr : (run 22 (load .nesting)).session.store.renderings 0 =
      ["a \x7b\n--k: v;\n\x7d\n", "a:b:c \x7b\nx;\x7d\n"] := by
    rw [Store.renderings, hpre]
    decide +kernel
  exact hr ▸ serializes .nesting 22 0 texts

end Machine

end RuleTree
