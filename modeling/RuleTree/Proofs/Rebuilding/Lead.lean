import RuleTree.Proofs.Blocks.Rendering
import RuleTree.Proofs.Rebuilding.Alike
import RuleTree.Proofs.Rebuilding.Plain

/-!
# A text before selectors

What becomes of a computation if the same text stands before the selectors that it looks at.

* `Error.led`, `Agreed`: an error for a selector with a text before it, and computations that agree
  up to this text;
* `Datum.led`: a selector with a text before it; one that is no text stays as it is;
* `Datum.plus_cases`, `Datum.label_agree_led`, `Store.picture_agree_led`: such a selector is
  appended to, shown and told like the one without;
* `Leading`: a text that does not change whether a selector awaits a target, and `leading_iff`: one
  that does not end with a space.
-/

namespace RuleTree

/-! ### Errors -/

/-- The error for a selector with a text before it. -/
def Error.led (lead : String) : Error → Error
  | .incompleteSelector selector => .incompleteSelector (lead ++ selector)
  | e => e

theorem Error.led_of_plain {e : Error} (h : e.Plain) (lead : String) : e.led lead = e := by
  cases e with
  | incompleteSelector t => exact absurd rfl (h t)
  | _ => rfl

@[simp] theorem Error.led_empty (e : Error) : e.led "" = e := by
  cases e with
  | incompleteSelector t => exact congrArg incompleteSelector (String.empty_append)
  | _ => rfl

/-- Both succeeding, or both failing with the same error, for a selector with a text before it in
place of that without. -/
def Agreed {α β : Type} (lead : String) (x : Except Error α) (y : Except Error β) : Prop :=
  Agree x (y.mapError (Error.led lead))

namespace Agreed

variable {α β : Type} {lead : String} {x : Except Error α} {y : Except Error β}

theorem ok (a : α) (b : β) : Agreed lead (.ok a : Except Error α) (.ok b : Except Error β) := rfl

theorem error (e : Error) :
    Agreed lead (.error (e.led lead) : Except Error α) (.error e : Except Error β) := rfl

theorem cases_on (h : Agreed lead x y) :
    (∃ e, x = .error (e.led lead) ∧ y = .error e) ∨ ∃ a b, x = .ok a ∧ y = .ok b := by
  cases y with
  | error e =>
    rcases Agree.cases_on h with ⟨e', rfl, he⟩ | ⟨a, b, -, hb⟩
    · cases he
      exact .inl ⟨e, rfl, rfl⟩
    · cases hb
  | ok b =>
    rcases Agree.cases_on h with ⟨e', -, he⟩ | ⟨a, b', rfl, -⟩
    · cases he
    · exact .inr ⟨a, b, rfl, rfl⟩

end Agreed

/-- Errors that name no selector are the same. -/
theorem Agree.agreed {α β : Type} {x : Except Error α} {y : Except Error β} (h : Agree x y)
    (hp : Plain y) (lead : String) : Agreed lead x y := by
  rcases h.cases_on with ⟨e, rfl, rfl⟩ | ⟨a, b, rfl, rfl⟩
  · have he := Error.led_of_plain (hp e rfl) lead
    exact congrArg (fun e => Except.error e) he.symm
  · exact .ok a b

namespace Datum.Alike

variable {d d' : Datum}

theorem spelled_plain (h : d.Alike d') (look : Appearance) : Plain (d'.spelled look) := by
  rw [h.symm.eq_of spelled_bare look .plain]
  exact d.spelled_plain

theorem propertyValue_plain (h : d.Alike d') (look : Appearance) : Plain (propertyValue look d') := by
  rw [h.symm.eq_of propertyValue_bare look .plain]
  exact RuleTree.propertyValue_plain d

theorem fragmentOf_plain (h : d.Alike d') (m : Method) (look : Appearance) :
    Plain (m.fragmentOf look d') := by
  intro e he
  rcases h.symm.fragmentOf m look .plain with ⟨e', he', hp⟩ | ⟨r, r', hr, -⟩
  · cases he.symm.trans he'
    exact m.fragmentOf_plain d e hp
  · cases he.symm.trans hr

end Datum.Alike

/-! ### Selectors -/

namespace Datum

variable {d d' : Datum}

/-- A selector with a text before it. -/
def led (lead : String) : Datum → Datum
  | .text t => .text (lead ++ t)
  | d => d

@[simp] theorem led_empty (d : Datum) : d.led "" = d := by
  cases d with
  | text t => exact congrArg text String.empty_append
  | _ => rfl

theorem led_of_not_text (h : ∀ t, d ≠ .text t) (lead : String) : d.led lead = d := by
  cases d with
  | text t => exact absurd rfl (h t)
  | _ => rfl

@[simp] theorem bare_led (lead : String) (d : Datum) : (d.led lead).bare = d.bare.led lead := by
  cases d <;> rfl

@[simp] theorem identities_led (lead : String) (d : Datum) :
    (d.led lead).identities = d.identities := by
  cases d <;> rfl

/-- A text comes of appending to a text only. -/
theorem text_of_plus {stamp : Stamp} {a b : Datum} {t : String} (h : plus stamp a b = .ok (.text t)) :
    ∃ u, a = .text u := by
  unfold plus at h
  split at h
  · exact ⟨_, rfl⟩
  · cases h
  · cases h
  · split at h
    · cases h
    · split at h
      · cases hx : a.toDouble with
        | error e => rw [hx] at h; cases h
        | ok x =>
          cases hy : b.toDouble with
          | error e => rw [hx, hy] at h; cases h
          | ok y => rw [hx, hy] at h; cases h
      · cases h

/-- Whatever is appended to a selector, the text stays before it. -/
theorem plus_led (stamp : Stamp) (lead : String) (a b : Datum) :
    plus stamp (a.led lead) b = (plus stamp a b).map (led lead) := by
  by_cases ha : ∃ t, a = .text t
  · obtain ⟨t, rfl⟩ := ha
    cases b with
    | text u => exact congrArg (fun s => Except.ok (text s)) String.append_assoc
    | _ => rfl
  · rw [led_of_not_text (fun t h => ha ⟨t, h⟩)]
    cases hp : plus stamp a b with
    | error e => rfl
    | ok d =>
      exact congrArg Except.ok (led_of_not_text (fun t h => ha (text_of_plus (h ▸ hp))) lead).symm

/-- Selectors that are the same up to numbers, but for a text before one of them, are appended to
with the same outcome. -/
theorem plus_cases (stamp stamp' : Stamp) {lead : String} {a a' b b' : Datum}
    (ha : a.bare = (a'.led lead).bare) (hb : b.bare = b'.bare) :
    (∃ e, e.Plain ∧ plus stamp a b = .error e ∧ plus stamp' a' b' = .error e) ∨
      ∃ d d', plus stamp a b = .ok d ∧ plus stamp' a' b' = .ok d' ∧
        d.bare = (d'.led lead).bare := by
  have h : (plus stamp a b).map bare = (plus stamp' a' b').map fun d => (d.led lead).bare := by
    rw [bare_plus, ha, hb, ← bare_plus stamp', plus_led]
    cases plus stamp' a' b' <;> rfl
  cases hp : plus stamp a b with
  | error e =>
    cases hp' : plus stamp' a' b' with
    | error e' =>
      rw [hp, hp'] at h
      exact .inl ⟨e, plus_plain stamp a b e hp, rfl,
        congrArg Except.error (Except.error.inj h).symm⟩
    | ok d' =>
      rw [hp, hp'] at h
      cases h
  | ok d =>
    cases hp' : plus stamp' a' b' with
    | error e' =>
      rw [hp, hp'] at h
      cases h
    | ok d' =>
      rw [hp, hp'] at h
      exact .inr ⟨d, d', rfl, rfl, Except.ok.inj h⟩

/-- A text before a selector does not matter for whether it can be shown. -/
theorem label_agree_led {lead : String} {look look' : Appearance} (h : d.bare = (d'.led lead).bare)
    (hn : ∀ n, .node n ∈ d'.identities → Agree (look.node n) (look'.node n)) :
    Agree (d.label look) (d'.label look') := by
  refine (label_agree_of_bare h fun n hn' => hn n (identities_led lead d' ▸ hn')).trans ?_
  cases d' with
  | text t =>
    rw [led, label_text, label_text]
    exact .ok _ _
  | _ => exact .refl _

theorem picture_agree_led {lead : String} {views views' : Views} (hf : views.form = views'.form)
    (h : d.bare = (d'.led lead).bare)
    (hn : ∀ n, .node n ∈ d'.identities → Agree (views.node n) (views'.node n)) :
    Agree (d.picture views) (d'.picture views') := by
  refine (picture_agree_of_bare hf h fun n hn' => hn n (identities_led lead d' ▸ hn')).trans ?_
  cases d' with
  | text t =>
    rw [led, picture_text, picture_text]
    exact .ok _ _
  | _ => exact .refl _

end Datum

/-- Rule sets whose selectors are the same up to numbers, but for a text before one of them, and
refer to no younger ones, can both be told or both not. -/
theorem Store.picture_agree_led {s s' : Store} {bound : NodeId} {lead : String}
    {hostName hostName' : HostId → String}
    (h : ∀ m < bound, (s.get m).selector = (s'.get m).selector) {n n' : NodeId}
    (hs : (s.get n).selector.bare = ((s'.get n').selector.led lead).bare)
    (hr : ∀ m, .node m ∈ (s'.get n').selector.identities → m < bound) (hn : bound ≤ n)
    (hn' : bound ≤ n') : Agree (s.picture hostName n) (s'.picture hostName' n') := by
  rw [picture, picture]
  refine (Datum.picture_agree_led (by rfl) hs fun m hm => ?_).map _ _
  have hlt := hr m hm
  simp only [Nat.lt_of_lt_of_le hlt hn, Nat.lt_of_lt_of_le hlt hn', dite_true]
  exact picture_agree h hlt

/-- Standing before a selector without changing whether it awaits a target. -/
def Leading (lead : String) : Prop := ∀ t, incomplete (lead ++ t) = incomplete t

theorem leading_empty : Leading "" := fun t => by rw [String.empty_append]

/-- Such a text does not end with a space. -/
theorem leading_iff {lead : String} : Leading lead ↔ lead.toList.getLast? ≠ some ' ' := by
  have none : incomplete "" = false := by decide
  constructor
  · intro h hl
    have := h ""
    rw [String.append_empty, none, (incomplete_iff_getLast? lead).2 hl] at this
    cases this
  · intro h t
    rw [incomplete_append]
    split
    · rename_i ht
      rw [ht, none]
      exact Bool.eq_false_iff.2 fun hi => h ((incomplete_iff_getLast? lead).1 hi)
    · rfl

theorem Leading.incomplete? {lead : String} (h : Leading lead) (d : Datum) :
    incomplete? (d.led lead) = RuleTree.incomplete? d := by
  cases d with
  | text t => rw [Datum.led, incomplete?_text, incomplete?_text, h t]
  | _ => rfl

end RuleTree
