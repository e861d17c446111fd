import RuleTree.Proofs.Blocks.Awaiting
import RuleTree.Proofs.Rebuilding.Tables
import RuleTree.Proofs.Selecting.Catalog

/-!
# Which selections can be written on

Whether a selected rule set awaits a target is seen from its whole selector, and yet its own fragment
decides, unless that is empty.

* `incomplete_join`: of texts one behind the other, the last that is not empty decides;
* `Session.WritableUnlessAwaiting`: a rule set rejects all that is written, or accepts it;
* `incomplete_of_fragment`, `incomplete_join_token`: no fragment of the catalog awaits a target, and
  those that a combinator makes of a text do if the text ends with a space;
* `Machine.CallsMethod`: a method is called with a generator, on a rule set and with an argument;
* `Machine.CallsMethod.sprouted`: which makes a rule set for its fragment;
* `Machine.WritesSelections`: what is known of the selections in a script;
* `Machine.writesSelections`: and that it is so.
-/

namespace RuleTree

/-! ### Texts one behind the other -/

/-- The last of some texts that is not empty. -/
def lastFilled (texts : List String) : Option String := texts.reverse.find? (· ≠ "")

theorem lastFilled_cons (t : String) (texts : List String) :
    lastFilled (t :: texts) = (lastFilled texts).or (if t = "" then none else some t) := by
  rw [lastFilled, List.reverse_cons, List.find?_append, List.find?_singleton]
  by_cases h : t = "" <;> simp [h, lastFilled]

/-- Of texts one behind the other the last that is not empty decides, and the first if all others
are empty. -/
theorem incomplete_join (t : String) (texts : List String) :
    incomplete (t ++ String.join texts) = incomplete ((lastFilled texts).getD t) := by
  induction texts generalizing t with
  | nil => rw [String.join_nil, String.append_empty]; rfl
  | cons u texts ih =>
    rw [String.join_cons, ← String.append_assoc, ih (t ++ u), lastFilled_cons]
    cases lastFilled texts with
    | some v => rfl
    | none =>
      rw [Option.getD_none, incomplete_append, Option.none_or]
      split <;> rfl

/-! ### Fragments -/

/-- Having a last character, and one that is no space. -/
def EndsFilled (cs : List Char) : Bool := cs.getLast?.any (· ≠ ' ')

theorem complete_of_endsFilled {t : String} (h : EndsFilled t.toList = true) :
    t ≠ "" ∧ incomplete t = false := by
  constructor
  · rintro rfl
    cases h
  · rw [Bool.eq_false_iff]
    intro hi
    rw [EndsFilled, (incomplete_iff_getLast? t).1 hi] at h
    cases h

theorem endsFilled_heads : ∀ s ∈ catalog, EndsFilled s.head = true := by decide +kernel

/-- A fragment of the catalog is not empty and awaits no target: it ends with its head or with a
parenthesis. -/
theorem incomplete_of_fragment {s : Shortcut} (hs : s ∈ catalog) {look : Appearance} {a : Datum}
    {f : String} (hf : s.fragment look a = .ok f) : f ≠ "" ∧ incomplete f = false := by
  obtain ⟨text, -, htext⟩ := Shortcut.toList_fragment (shaped_of_mem_catalog s hs) hf
  refine complete_of_endsFilled ?_
  rw [htext]
  cases text with
  | none => rw [Shortcut.enclosed, List.append_nil, endsFilled_heads s hs]
  | some u =>
    rw [Shortcut.enclosed, ← List.cons_append, ← List.append_assoc, EndsFilled,
      List.getLast?_concat]
    rfl

/-- Every text is an argument that a shortcut of the catalog has a fragment for. -/
theorem exists_fragment_of_text {s : Shortcut} (hs : s ∈ catalog) (look : Appearance)
    (text : String) : ∃ f, s.fragment look (.text text) = .ok f := by
  rw [Shortcut.fragment_eq (shaped_of_mem_catalog s hs), Shortcut.argumentText]
  cases s.argument <;> exact ⟨_, rfl⟩

/-- Methods only join texts with tokens that are not empty and await no target. -/
theorem endsFilled_token {name : String} {c : Combinator}
    (hm : Method.ofName? name = some (.joined c)) : EndsFilled c.token.toList = true := by
  have h : ∀ e ∈ Method.primitives, ∀ c ∈ Combinator.all, e.2 = .joined c →
      EndsFilled c.token.toList = true := by decide +kernel
  rcases List.mem_append.1 (Entries.mem_of_find? hm) with hp | hs
  · exact h _ hp c (Combinator.mem_all c) rfl
  · obtain ⟨s, -, hs⟩ := List.mem_map.1 hs
    cases hs

/-- What a method makes of a text awaits a target if the text ends with a space. -/
theorem incomplete_join_token {name : String} {c : Combinator}
    (hm : Method.ofName? name = some (.joined c)) (text : String) :
    c.join text ≠ "" ∧ (incomplete (c.join text) = true ↔ text.toList.getLast? = some ' ') := by
  obtain ⟨hne, hc⟩ := complete_of_endsFilled (endsFilled_token hm)
  constructor
  · intro h
    exact hne (String.append_eq_empty_iff.1 h).1
  · rw [Combinator.join, incomplete_append]
    split
    · rename_i h
      simp [h, hc]
    · exact incomplete_iff_getLast? text

namespace Session

/-- Rejecting all that is written if a selector awaits a target, and accepting every text if not. -/
structure WritableUnlessAwaiting (σ : Session) (c : NodeId) (selector : String) : Prop where
  text : (σ.store.get c).selector = .text selector
  /-- which of the two it is can be asked -/
  tells : σ.read (.node c) .incomplete = .answer σ (.ok (.bool (incomplete selector)))
  awaiting : incomplete selector = true → σ.Awaiting c selector
  writable : incomplete selector = false → σ.Writable c

theorem writableUnlessAwaiting {σ : Session} {c : NodeId} {selector : String}
    (hu : σ.store.Unwritten) (hs : (σ.store.get c).selector = .text selector) :
    σ.WritableUnlessAwaiting c selector where
  text := hs
  tells := by
    show Start.answer σ ((incomplete? (σ.store.get c).selector).map .bool) = _
    rw [hs, incomplete?_text]
    rfl
  awaiting := σ.awaiting hu hs
  writable := σ.writable hs

theorem sprouted_mem_selectDeeds {σ : Session} {p : NodeId} {t u : String} {g : Datum}
    (hp : (σ.store.get p).selector = .text t) (hg : σ.callable g = true) :
    .sprouted σ.store.next p (.text (t ++ u)) none (some (.text u)) ∈
      σ.selectDeeds p (.text u) (some g) := by
  have hn : g.isNull = false := by
    cases g with
    | null => cases hg
    | _ => rfl
  unfold selectDeeds
  rw [hp]
  simp only [hn, Datum.plus_text, hg, if_true, Bool.false_eq_true, if_false]
  exact List.mem_cons_self

end Session

namespace Machine

/-- What the next step begins is a call of a method with a generator, on a rule set and with an
argument of which the objects look somehow. -/
inductive CallsMethod (m : Machine) : Method → NodeId → Appearance → Datum → Prop
  | intro {σ : Session} {tag : Tag} {t : Target} {name : String} {method : Method} {p : NodeId}
    {first last argument : Option Datum} {g : Datum}
    (task : m.task = .begin σ tag (.select t name first last)) (target : σ.target t = .node p)
    (named : Method.ofName? name = some method)
    (bound : method.bind first last = .ok (argument, some g)) (callable : σ.callable g = true) :
    m.CallsMethod method p σ.appearance (argument.getD .null)

/-- A selection with a generator makes a rule set for its fragment. -/
theorem CallsMethod.sprouted {m : Machine} {method : Method} {p : NodeId} {look : Appearance}
    {a : Datum} (h : m.CallsMethod method p look a) (hk : method ≠ .kind) {t u : String}
    (hp : (m.session.store.get p).selector = .text t)
    (hf : method.fragmentOf look a = .ok (.text u)) :
    .sprouted m.session.store.next p (.text (t ++ u)) none (some (.text u)) ∈ m.events := by
  obtain ⟨task, target, named, bound, callable⟩ := h
  rename_i σ tag target' name first last argument g
  have hs : σ.store = m.session.store := by
    cases stepCases m with
    | begun σ' _ _ task' alike =>
      cases task.symm.trans task'
      exact alike.store
    | still task' => exact absurd task (task' _ _ _)
    | finished _ _ task' => cases task.symm.trans task'
  rw [← hs] at hp ⊢
  unfold events
  rw [task]
  show _ ∈ σ.targetDeeds target' _
  unfold Session.targetDeeds Session.methodDeeds
  rw [target, Method.named_of_ofName? named]
  simp only [bound, if_neg hk, hf]
  exact Session.sprouted_mem_selectDeeds hp callable

/-- What is known of the selections in a script, in all states from when they are made. -/
structure WritesSelections (s : Script) : Prop where
  /-- a selection with a generator makes a rule set for its fragment -/
  made : ∀ k method p look a t u, (run k (load s)).CallsMethod method p look a → method ≠ .kind →
    ((run k (load s)).session.store.get p).selector = .text t →
    method.fragmentOf look a = .ok (.text u) →
    .sprouted (run k (load s)).session.store.next p (.text (t ++ u)) none (some (.text u)) ∈
      (run k (load s)).events
  /-- a rule set made for a fragment awaits a target if the fragment ends with a space, or is empty
  and the selector before it awaits one -/
  decided : ∀ k c p d host f t, .sprouted c p d host (some f) ∈ history k (load s) →
    ((run k (load s)).session.store.get p).selector = .text t → ∃ u, f = .text u ∧
      (incomplete (t ++ u) = true ↔
        u.toList.getLast? = some ' ' ∨ u = "" ∧ incomplete t = true) ∧
      (run k (load s)).session.WritableUnlessAwaiting c (t ++ u)
  /-- so one that is made for a shortcut accepts every text -/
  shortcut : ∀ k, ∀ sc ∈ catalog, ∀ p look a t u,
    (run k (load s)).CallsMethod (.shortcut sc) p look a →
    ((run k (load s)).session.store.get p).selector = .text t → sc.fragment look a = .ok u →
    ∃ c, .sprouted c p (.text (t ++ u)) none (some (.text u)) ∈ (run k (load s)).events ∧
      ∀ j, (run (k + 1 + j) (load s)).session.Writable c
  /-- and all texts are arguments of shortcuts -/
  accepts : ∀ sc ∈ catalog, ∀ look text, ∃ u, sc.fragment look (.text text) = .ok u
  /-- one that is made for a bare descendant rejects whatever is written -/
  descendant : ∀ k p look a t, (run k (load s)).CallsMethod .descendant p look a →
    ((run k (load s)).session.store.get p).selector = .text t →
    ∃ c, .sprouted c p (.text (t ++ " ")) none (some (.text " ")) ∈ (run k (load s)).events ∧
      ∀ j, (run (k + 1 + j) (load s)).session.Awaiting c (t ++ " ")
  /-- and one that is made for a text behind a combinator does if the text ends with a space -/
  joined : ∀ k c p look a t u, (run k (load s)).CallsMethod (.joined c) p look a →
    ((run k (load s)).session.store.get p).selector = .text t → a.spelled look = .ok u →
    ∃ n, .sprouted n p (.text (t ++ c.join u)) none (some (.text (c.join u))) ∈
        (run k (load s)).events ∧
      (incomplete (t ++ c.join u) = true ↔ u.toList.getLast? = some ' ') ∧
      ∀ j, (run (k + 1 + j) (load s)).session.WritableUnlessAwaiting n (t ++ c.join u)
  /-- down a chain of selections the last fragment that is not empty decides, and the selector at
  the top if there is none -/
  chain : ∀ k r t path, ((run k (load s)).session.store.get r).selector = .text t →
    List.IsChain (SelectedOn (history k (load s))) (r :: path) →
    let fragments := path.map (fragmentText (history k (load s)))
    let selector := t ++ String.join fragments
    incomplete selector = incomplete ((lastFilled fragments).getD t) ∧
      (run k (load s)).session.WritableUnlessAwaiting (path.getLastD r) selector

/-- What happens in a step is part of the history of all states from the next one on. -/
theorem mem_history {m : Machine} {k : Nat} {e : Event} (he : e ∈ (run k m).events) (j : Nat) :
    e ∈ history (k + 1 + j) m := by
  rw [Nat.add_assoc, history_add, Nat.add_comm 1 j, history]
  exact List.mem_append_right _ (List.mem_append_left _ he)

/-- A rule set that a step makes can be written on as its selector says, from the next state on. -/
theorem writableUnlessAwaiting_of_sprouted {s : Script} {k : Nat} {c p : NodeId}
    {selector : String} {host fragment : Option Datum}
    (he : .sprouted c p (.text selector) host fragment ∈ (run k (load s)).events) (j : Nat) :
    (run (k + 1 + j) (load s)).session.WritableUnlessAwaiting c selector :=
  Session.writableUnlessAwaiting (unwritten s _)
    ((owned s _).recorded.holds _ (mem_history he j)).1

theorem incomplete_append_iff (t u : String) : incomplete (t ++ u) = true ↔
    u.toList.getLast? = some ' ' ∨ u = "" ∧ incomplete t = true := by
  rw [incomplete_append, ← incomplete_iff_getLast?]
  split
  · rename_i h
    subst h
    simp [show incomplete "" = false by decide]
  · rename_i h
    simp [h]

/-- Selections in a script can be written on unless their fragments say otherwise. -/
theorem writesSelections (s : Script) : WritesSelections s where
  made k method p look a t u h hk hp hf := h.sprouted hk hp hf
  decided k c p d host f t he hp := by
    obtain ⟨u, hu, hc⟩ := (owned s k).recorded.selector_of_sprouted he hp
    exact ⟨u, hu, incomplete_append_iff t u, Session.writableUnlessAwaiting (unwritten s k) hc⟩
  shortcut k sc hsc p look a t u h hp hf := by
    have he := h.sprouted (by simp) hp (by rw [Method.fragmentOf, hf]; rfl)
    obtain ⟨hne, hc⟩ := incomplete_of_fragment hsc hf
    refine ⟨_, he, fun j => (writableUnlessAwaiting_of_sprouted he j).writable ?_⟩
    rw [incomplete_append, if_neg hne, hc]
  accepts sc hsc := exists_fragment_of_text hsc
  descendant k p look a t h hp := by
    have he := h.sprouted (by simp) hp (u := " ") rfl
    refine ⟨_, he, fun j => (writableUnlessAwaiting_of_sprouted he j).awaiting ?_⟩
    rw [incomplete_append, if_neg (by decide)]
    decide
  joined k c p look a t u h hp hu := by
    have he := h.sprouted (by simp) hp (by rw [Method.fragmentOf, hu]; rfl)
    obtain ⟨-, -, named, -, -⟩ := h
    obtain ⟨hne, hc⟩ := incomplete_join_token named u
    refine ⟨_, he, ?_, writableUnlessAwaiting_of_sprouted he⟩
    rw [incomplete_append, if_neg hne, hc]
  chain k r t path ht hp := by
    refine ⟨incomplete_join t _, Session.writableUnlessAwaiting (unwritten s k) ?_⟩
    exact (owned s k).recorded.selector_of_chain path ht hp

end Machine

end RuleTree
