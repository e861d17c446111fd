import RuleTree.Proofs.History.Lineage
import Mathlib.Data.List.DropRight

/-!
# What a rule set holds

What a rule set holds is a function of what happened to it since it was made or last emptied.

* `Event.restarts`, `since`: the events after which a rule set holds nothing, and those that came
  after the last of them;
* `writesOn`, `selectionsOn`, `definitionsOn`: the texts written on a rule set, the children that it
  came to list, and the custom properties defined on it, in order;
* `RuleSet.HoldsAll`: holding what some events put in, and nothing else;
* `Machine.holdsAll_since`: every rule set holds what the events since it was made or last emptied
  put in, and every child that it came to list had been made by a selection on it.
-/

namespace RuleTree

/-- Whether a rule set holds nothing after an event, since it was made or emptied by it. -/
def Event.restarts (n : NodeId) : Event → Bool
  | planted m _ _ _ => m = n
  | sprouted m _ _ _ _ => m = n
  | cleared m => m = n
  | _ => false

/-- The events since a rule set was made or last emptied. -/
def since (n : NodeId) (h : List Event) : List Event := h.rtakeWhile fun e => !e.restarts n

/-- The text that an event writes on a rule set. -/
def Event.textOn (n : NodeId) : Event → Option String
  | wrote m text => if m = n then some text else none
  | _ => none

/-- The rule set that a rule set comes to list by an event. -/
def Event.childOn (n : NodeId) : Event → Option NodeId
  | selected p child => if p = n then some child else none
  | _ => none

/-- The custom property that an event defines on a rule set, by name and text. -/
def Event.definitionOn (n : NodeId) : Event → Option (String × String)
  | defined m name text => if m = n then some (name, text) else none
  | _ => none

/-- The texts that were written on a rule set. -/
def writesOn (n : NodeId) (h : List Event) : List String := h.filterMap (Event.textOn n)

/-- The rule sets whose selections on a rule set were completed, in the order of completion. -/
def selectionsOn (n : NodeId) (h : List Event) : List NodeId := h.filterMap (Event.childOn n)

/-- The custom properties that were defined on a rule set. -/
def definitionsOn (n : NodeId) (h : List Event) : List (String × String) :=
  h.filterMap (Event.definitionOn n)

/-- Holding what some events put into a rule set, and nothing else. -/
structure RuleSet.HoldsAll (r : RuleSet) (n : NodeId) (h : List Event) : Prop where
  /-- the texts, end to end -/
  text : r.text = String.join (writesOn n h)
  /-- the children in the order of completion -/
  children : r.children = selectionsOn n h
  /-- the names in the order of first definition -/
  names : r.scope.keys = ((definitionsOn n h).map Prod.fst).eraseDups
  /-- each with the text of its last definition -/
  texts : ∀ name, r.scope.find? name = (definitionsOn n h).reverse.lookup name

/-! ### One more event -/

/-- What a rule set holds after an event that does not empty it. -/
structure RuleSet.Gains (r r' : RuleSet) (n : NodeId) (e : Event) : Prop where
  text : r'.text = r.text ++ (e.textOn n).getD ""
  children : r'.children = r.children ++ (e.childOn n).toList
  scope : r'.scope = ((e.definitionOn n).map fun d => r.scope.insert d.1 d.2).getD r.scope

namespace RuleSet.HoldsAll

variable {r r' : RuleSet} {n : NodeId} {h : List Event} {e : Event}

/-- Where nothing has happened nothing is held. -/
theorem nil (ht : r.text = "") (hc : r.children = []) (hs : r.scope = .empty) :
    r.HoldsAll n [] :=
  ⟨ht, hc, by rw [hs]; rfl, fun name => by rw [hs]; rfl⟩

/-- A definition is the last one of its name, and the first one unless the name is known. -/
theorem scope_snoc (hr : r.HoldsAll n h) (hg : r.Gains r' n e) :
    r'.scope.keys = ((definitionsOn n (h ++ [e])).map Prod.fst).eraseDups ∧
      ∀ name, r'.scope.find? name = (definitionsOn n (h ++ [e])).reverse.lookup name := by
  have hd : definitionsOn n (h ++ [e]) = definitionsOn n h ++ (e.definitionOn n).toList := by
    unfold definitionsOn
    rw [List.filterMap_append]
    cases he : e.definitionOn n <;> simp [he]
  rw [hg.scope, hd]
  cases e.definitionOn n with
  | none => simpa using ⟨hr.names, hr.texts⟩
  | some d =>
    obtain ⟨name, text⟩ := d
    have hmem : name ∈ r.scope.keys ↔ name ∈ (definitionsOn n h).map Prod.fst := by
      rw [hr.names, List.mem_eraseDups]
    refine ⟨?_, fun key => ?_⟩
    · show (r.scope.insert name text).keys = _
      rw [Table.keys_insert, Option.toList_some, List.map_append, List.eraseDups_append,
        ← hr.names]
      -- a known name keeps its place, and a new one goes to the end
      by_cases hn : name ∈ r.scope.keys
      · have : List.removeAll [name] ((definitionsOn n h).map Prod.fst) = [] := by
          simpa [List.removeAll] using hmem.1 hn
        simp [if_pos hn, this]
      · have : List.removeAll [name] ((definitionsOn n h).map Prod.fst) = [name] := by
          simpa [List.removeAll] using fun hc => hn (hmem.2 hc)
        simp [if_neg hn, this, List.eraseDups_cons]
    · show (r.scope.insert name text).find? key = _
      rw [Table.find?_insert, Option.toList_some, List.reverse_append, List.reverse_singleton,
        List.singleton_append, List.lookup_cons, hr.texts]
      by_cases hk : key = name
      · simp [hk]
      · rw [if_neg hk, beq_false_of_ne hk]

theorem snoc (hr : r.HoldsAll n h) (hg : r.Gains r' n e) : r'.HoldsAll n (h ++ [e]) where
  text := by
    unfold writesOn
    rw [hg.text, hr.text, List.filterMap_append, String.join_append]
    cases he : e.textOn n <;> simp [he, writesOn]
  children := by
    unfold selectionsOn
    rw [hg.children, hr.children, List.filterMap_append]
    cases he : e.childOn n <;> simp [he, selectionsOn]
  names := (hr.scope_snoc hg).1
  texts := (hr.scope_snoc hg).2

end RuleSet.HoldsAll

namespace Store

/-- What an event makes of a rule set that was there before and is not emptied by it. -/
theorem Becomes.gains {s t : Store} {e : Event} (h : s.Becomes e t) {n : NodeId} (hn : n < s.next)
    (he : e.restarts n = false) : (s.get n).Gains (t.get n) n e := by
  have still {e : Event} (ht : e.textOn n = none) (hc : e.childOn n = none)
      (hd : e.definitionOn n = none) : (s.get n).Gains (s.get n) n e :=
    ⟨by rw [ht]; simp, by rw [hc]; simp, by rw [hd]; rfl⟩
  cases h with
  | planted selector host o =>
    rw [get_plant, if_neg (Nat.ne_of_lt hn)]
    exact still rfl rfl rfl
  | sprouted p selector host fragment =>
    rw [get_sprout, if_neg (Nat.ne_of_lt hn)]
    exact still rfl rfl rfl
  | selected p c hp =>
    have hc : (Event.selected p c).childOn n = if p = n then some c else none := rfl
    rw [get_attach, hp]
    by_cases hpn : p = n
    · rw [if_pos (by rw [hpn])]
      rw [if_pos hpn] at hc
      exact ⟨by simp [Event.textOn], by rw [hc]; rfl, rfl⟩
    · rw [if_neg (by simpa using hpn)]
      rw [if_neg hpn] at hc
      exact still rfl hc rfl
  | wrote m text =>
    have ht : (Event.wrote m text).textOn n = if m = n then some text else none := rfl
    rw [get_append]
    by_cases hm : m = n
    · rw [if_pos ⟨hm, hm ▸ hn⟩]
      rw [if_pos hm] at ht
      exact ⟨by rw [ht]; rfl, by simp [Event.childOn], rfl⟩
    · rw [if_neg fun h => hm h.1]
      rw [if_neg hm] at ht
      exact still ht rfl rfl
  | defined m name text =>
    have hd : (Event.defined m name text).definitionOn n =
      if m = n then some (name, text) else none := rfl
    rw [get_define]
    by_cases hm : m = n
    · rw [if_pos ⟨hm, hm ▸ hn⟩]
      rw [if_pos hm] at hd
      exact ⟨by simp [Event.textOn], by simp [Event.childOn], by rw [hd]; rfl⟩
    · rw [if_neg fun h => hm h.1]
      rw [if_neg hm] at hd
      exact still rfl rfl hd
  | cleared m =>
    rw [get_clear, if_neg]
    · exact still rfl rfl rfl
    · rintro ⟨rfl, -⟩
      simp [Event.restarts] at he
  | optionSet => exact still rfl rfl rfl

/-- After an event that makes or empties a rule set it holds nothing. -/
theorem Becomes.empties {s t : Store} {e : Event} (h : s.Becomes e t) {n : NodeId}
    (hn : n < t.next) (he : e.restarts n = true) : (t.get n).HoldsAll n [] := by
  cases h with
  | planted =>
    rw [get_plant, if_pos (of_decide_eq_true he).symm]
    exact .nil rfl rfl rfl
  | sprouted =>
    rw [get_sprout, if_pos (of_decide_eq_true he).symm]
    exact .nil rfl rfl rfl
  | cleared m =>
    have hm : m = n := of_decide_eq_true he
    rw [next_clear] at hn
    rw [get_clear, if_pos ⟨hm, hm ▸ hn⟩]
    exact .nil rfl rfl rfl
  | _ => cases he

/-- A rule set that an event does not make was there before. -/
theorem Becomes.lt_of_restarts {s t : Store} {e : Event} (h : s.Becomes e t) {n : NodeId}
    (hn : n < t.next) (he : e.restarts n = false) : n < s.next := by
  cases h with
  | planted =>
    rw [next_plant] at hn
    exact Nat.lt_of_le_of_ne (Nat.le_of_lt_succ hn) fun h => of_decide_eq_false he h.symm
  | sprouted =>
    rw [next_sprout] at hn
    exact Nat.lt_of_le_of_ne (Nat.le_of_lt_succ hn) fun h => of_decide_eq_false he h.symm
  | selected | wrote | defined | cleared | optionSet => simpa using hn

/-- Every rule set goes on holding what happened to it since it was made or last emptied. -/
theorem Becomes.holdsAll {s t : Store} {e : Event} (hb : s.Becomes e t) {h : List Event}
    (hs : ∀ n < s.next, (s.get n).HoldsAll n (since n h)) {n : NodeId} (hn : n < t.next) :
    (t.get n).HoldsAll n (since n (h ++ [e])) := by
  unfold since
  rw [List.rtakeWhile_concat]
  cases he : e.restarts n with
  | true => exact hb.empties hn he
  | false =>
    have hlt := hb.lt_of_restarts hn he
    exact (hs n hlt).snoc (hb.gains hlt he)

/-- The selection of a rule set that comes to be listed was begun on the rule set that lists it. -/
theorem Owned.begun_of_selected {s t : Store} {h events : List Event}
    {pending pending' : List NodeId} (ho : s.Owned h pending)
    (hm : Move s pending events t pending') {p c : NodeId} (hs : .selected p c ∈ events) :
    ∃ selector fragment, .sprouted c p selector none (some fragment) ∈ h := by
  cases hm with
  | quiet _ quiet => exact absurd (quiet _ hs) (by simp [Event.lists])
  | enter _ quiet => exact absurd (quiet _ hs) (by simp [Event.lists])
  | attach parent =>
    cases List.mem_singleton.1 hs
    obtain ⟨-, q, f, stamp, he, -, hp, -⟩ := ho.of_made (ho.made c List.mem_cons_self)
    cases hp.symm.trans parent
    exact ⟨_, f, he⟩

end Store

namespace Machine

/-- In every state of a script, inside of generators and after failures as well, every rule set
holds exactly what happened to it since it was made or last emptied, and lists only rule sets whose
selection had been begun on it. -/
theorem holdsAll_since (s : Script) (k : Nat) :
    (∀ n < (run k (load s)).session.store.next,
      ((run k (load s)).session.store.get n).HoldsAll n (since n (history k (load s)))) ∧
    ∀ i < k, ∀ p c, .selected p c ∈ (run i (load s)).events →
      ∃ selector fragment,
        .sprouted c p selector none (some fragment) ∈ history i (load s) := by
  refine ⟨?_, fun i _ p c h => (owned s i).begun_of_selected (move_step _) h⟩
  have ht := trail_history k (load s)
  exact ht.preserves (P := fun h s => ∀ n < s.next, (s.get n).HoldsAll n (since n h))
    (fun hs hb n hn => hb.holdsAll hs hn) (h := []) fun n hn => absurd hn (Nat.not_lt_zero n)

end Machine

/-- A script whose root is emptied, and filled again, while one of its children is being filled. -/
def Script.refilling : Script where
  steps := [.mk (.build (.text "a") (.inline [
      .mk (.write (.enclosing 0) (.text "x;")) none none,
      .mk (.select (.enclosing 0) "select" (some (.text ":b")) (some (.inline []))) none none,
      .mk (.select (.enclosing 0) "select" (some (.text ":c")) (some (.inline [
        .mk (.reset (.enclosing 1) (.inline [
          .mk (.define (.enclosing 0) "k" (.text "v")) none none,
          .mk (.select (.enclosing 0) "select" (some (.text ":d")) (some (.inline []))) none none]))
          none none]))) none none,
      .mk (.write (.enclosing 0) (.text "y;")) none none])
    none [("clear_on_reset", .bool true)]) none none]
  generators := .empty
  logs := false

/-- The root holds what came after it was emptied: a child that was selected before it was emptied
and completed later is listed behind one that was selected in between. -/
theorem Machine.holdsAll_refilling :
    ((run 21 (load .refilling)).session.store.get 0).HoldsAll 0
        (since 0 (history 21 (load .refilling))) ∧
      ((run 21 (load .refilling)).session.store.get 0).text = "y;" ∧
      ((run 21 (load .refilling)).session.store.get 0).children = [3, 2] :=
  ⟨(holdsAll_since .refilling 21).1 0 (by decide +kernel), by decide +kernel, by decide +kernel⟩

end RuleTree
