import RuleTree.Proofs.Tree.Preorder
import RuleTree.Store.Block

/-!
# What a rule set shows

* `Store.rendering`: what a rule set shows in a tree that emits custom properties or does not: the
  custom properties, unless the selector ends with a space, and the text, between braces behind the
  selector; nothing if there is nothing between the braces;
* `Store.renderings`: what the rule sets of a tree show, parents first and children in order;
* `Store.block?_of_options`: the block of a rule set is its rendering if its selector is a text;
* `Store.Owned.block?_of_mem_preorder`: in a tree whose top has a text for a selector every block is
  the rendering.
-/

namespace RuleTree

namespace RuleSet

/-- The lines of custom properties that a rule set shows. -/
def declared (r : RuleSet) (emit : Bool) (selector : String) : String :=
  if emit && selector.toList.getLast? != some ' ' then
    String.join (r.scope.entries.map fun e => "--" ++ e.1 ++ ": " ++ e.2 ++ ";\n")
  else ""

/-- What a rule set shows under a selector. -/
def shown (r : RuleSet) (emit : Bool) (selector : String) : Option String :=
  let body := r.declared emit selector ++ r.text
  if body = "" then none else some (selector ++ " \x7b\n" ++ body ++ "\x7d\n")

end RuleSet

/-- A selector awaits a target if it ends with a space. -/
theorem incomplete_iff_getLast? (selector : String) :
    incomplete selector = true ↔ selector.toList.getLast? = some ' ' := by
  rw [incomplete, Combinator.terminates_descendant, List.getLast?_eq_some_iff]

/-- Only the last text that is not empty decides whether a selector awaits a target. -/
theorem incomplete_append (s t : String) :
    incomplete (s ++ t) = if t = "" then incomplete s else incomplete t := by
  split
  · rename_i h
    rw [h, String.append_empty]
  · rename_i h
    have hne : t.toList ≠ [] := fun he => h (String.toList_eq_nil_iff.1 he)
    rw [Bool.eq_iff_iff, incomplete_iff_getLast?, incomplete_iff_getLast?, String.toList_append,
      List.getLast?_append_of_ne_nil _ hne]

namespace RuleSet

variable {r : RuleSet} {selector : String}

theorem body_eq (hs : r.selector = .text selector) (emit : Bool) :
    r.body emit = .ok (r.declared emit selector ++ r.text) := by
  have hp : r.properties emit = .ok (r.declared emit selector) := by
    unfold properties declared
    rw [hs, incomplete?_text]
    cases emit with
    | false => rfl
    | true =>
      have hi : (selector.toList.getLast? != some ' ') = !incomplete selector := by
        rw [Bool.eq_iff_iff, bne_iff_ne, Bool.not_eq_true', ← Bool.not_eq_true,
          incomplete_iff_getLast?]
      rw [hi]
      cases he : r.scope.entries with
      | nil => cases incomplete selector <;> rfl
      | cons e rest =>
        cases incomplete selector
        · simp [he, scopeLines, propertyLine, bind, Except.bind, pure, Except.pure]
        · rfl
  rw [body, hp]
  rfl

theorem block?_eq_shown (hs : r.selector = .text selector) (look : Appearance) (emit : Bool) :
    r.block? look emit = .ok (r.shown emit selector) := by
  unfold block? shown
  rw [body_eq hs, hs]
  simp only [bind, Except.bind]
  split <;> rfl

end RuleSet

namespace Store

/-- What a rule set shows in a tree that emits custom properties or does not. -/
def rendering (s : Store) (emit : Bool) (x : NodeId) : Option String :=
  match (s.get x).selector with
  | .text selector => (s.get x).shown emit selector
  | _ => none

/-- What the rule sets of a tree show, parents first and children in order. -/
def renderings (s : Store) (n : NodeId) : List String :=
  (s.forest.preorder n).filterMap (s.rendering (s.optionsOf n).emitCustomProperties.truthy)

/-- The block of a rule set with the options of a tree is its rendering if its selector is a text.
-/
theorem block?_of_options {s : Store} {n x : NodeId} (hs : (s.get x).selector.isText = true)
    (ho : (s.get x).options = (s.get n).options) (look : Appearance) :
    s.block? look x = .ok (s.rendering (s.optionsOf n).emitCustomProperties.truthy x) := by
  obtain ⟨selector, hs⟩ := Datum.exists_of_isText hs
  have he : s.emits x = (s.optionsOf n).emitCustomProperties.truthy := by
    rw [emits, optionsOf, optionsOf, ho]
  rw [block?, RuleSet.block?_eq_shown hs, he, rendering, hs]

/-- In a tree whose top has a text for a selector every block is the rendering. -/
theorem Owned.block?_of_mem_preorder {s : Store} {h : List Event} {pending : List NodeId}
    (ho : s.Owned h pending) {n x : NodeId} (hn : (s.get n).selector.isText = true)
    (hx : x ∈ s.forest.preorder n) (look : Appearance) :
    s.block? look x = .ok (s.rendering (s.optionsOf n).emitCustomProperties.truthy x) :=
  block?_of_options (ho.text_of_mem_preorder hn hx) (ho.options_of_mem_preorder hx) look

end Store

end RuleTree
