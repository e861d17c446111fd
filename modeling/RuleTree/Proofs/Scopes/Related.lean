import RuleTree.Table
import RuleTree.Error
import Mathlib.Data.List.Forall2

/-!
# Related data

What it means for data that are put together to be related part by part.

* `PairRel`, `NamedRel`: pairs, and lists of named values;
* `Both`: computations that fail with the same error or have related results;
* `Table.Rel`: tables with the same names in the same order;
* `Rows`: arrays of the same size.
-/

namespace Option.Rel

variable {α β γ δ : Type} {r r' : α → β → Prop} {q : γ → δ → Prop} {a : Option α} {b : Option β}

theorem refl {r : α → α → Prop} (hr : ∀ a, r a a) (a : Option α) : Option.Rel r a a := by
  cases a with
  | none => exact .none
  | some a => exact .some (hr a)

theorem mono (h : Option.Rel r a b) (hr : ∀ a b, r a b → r' a b) : Option.Rel r' a b := by
  cases h with
  | some h => exact .some (hr _ _ h)
  | none => exact .none

theorem map (h : Option.Rel r a b) {f : α → γ} {g : β → δ} (hf : ∀ a b, r a b → q (f a) (g b)) :
    Option.Rel q (a.map f) (b.map g) := by
  cases h with
  | some h => exact .some (hf _ _ h)
  | none => exact .none

theorem map_eq (h : Option.Rel r a b) {f : α → γ} {g : β → γ} (hf : ∀ a b, r a b → f a = g b) :
    a.map f = b.map g := by
  cases h with
  | some h => exact congrArg _ (hf _ _ h)
  | none => rfl

/-- What there is, or something else that is related. -/
theorem getD (h : Option.Rel r a b) {d : α} {d' : β} (hd : r d d') : r (a.getD d) (b.getD d') := by
  cases h with
  | some h => exact h
  | none => exact hd

theorem isSome (h : Option.Rel r a b) : a.isSome = b.isSome := by
  cases h <;> rfl

theorem toList (h : Option.Rel r a b) : List.Forall₂ r a.toList b.toList := by
  cases h with
  | some h => exact .cons h .nil
  | none => exact .nil

end Option.Rel

namespace RuleTree

/-- Being pairs of related parts. -/
inductive PairRel {α α' β β' : Type} (r : α → α' → Prop) (q : β → β' → Prop) :
    α × β → α' × β' → Prop
  | mk {a : α} {a' : α'} {b : β} {b' : β'} (fst : r a a') (snd : q b b') :
    PairRel r q (a, b) (a', b')

namespace PairRel

variable {α α' β β' : Type} {r r' : α → α' → Prop} {q q' : β → β' → Prop} {p : α × β} {p' : α' × β'}

theorem left (h : PairRel r q p p') : r p.1 p'.1 := by
  cases h
  assumption

theorem right (h : PairRel r q p p') : q p.2 p'.2 := by
  cases h
  assumption

theorem imp (h : PairRel r q p p') (hr : ∀ a b, r a b → r' a b) (hq : ∀ a b, q a b → q' a b) :
    PairRel r' q' p p' := by
  cases h with
  | mk h₁ h₂ => exact ⟨hr _ _ h₁, hq _ _ h₂⟩

end PairRel

/-- Both failing with the same error, or both succeeding with related results. -/
inductive Both {α β : Type} (r : α → β → Prop) : Except Error α → Except Error β → Prop
  | error (e : Error) : Both r (.error e) (.error e)
  | ok {a : α} {b : β} (h : r a b) : Both r (.ok a) (.ok b)

namespace Both

variable {α β γ δ : Type} {r : α → β → Prop} {q : γ → δ → Prop} {x : Except Error α}
  {y : Except Error β}

theorem of_eq {x y : Except Error α} (h : x = y) : Both Eq x y := by
  subst h
  cases x with
  | error e => exact .error e
  | ok a => exact .ok rfl

theorem map (h : Both r x y) {f : α → γ} {g : β → δ} (hf : ∀ a b, r a b → q (f a) (g b)) :
    Both q (x.map f) (y.map g) := by
  cases h with
  | error e => exact .error e
  | ok h => exact .ok (hf _ _ h)

/-- What two functions make of the same result is related if it is for each result. -/
theorem map_of_eq {r : β → γ → Prop} {x y : Except Error α} (h : x = y) {f : α → β} {g : α → γ}
    (hf : ∀ a, r (f a) (g a)) : Both r (x.map f) (y.map g) :=
  (of_eq h).map fun a _ e => e ▸ hf a

theorem imp {r' : α → β → Prop} (h : Both r x y) (hr : ∀ a b, r a b → r' a b) : Both r' x y := by
  cases h with
  | error e => exact .error e
  | ok h => exact .ok (hr _ _ h)

theorem bind (h : Both r x y) {f : α → Except Error γ} {g : β → Except Error δ}
    (hf : ∀ a b, r a b → Both q (f a) (g b)) : Both q (x >>= f) (y >>= g) := by
  cases h with
  | error e => exact .error e
  | ok h => exact hf _ _ h

theorem mapM {as : List α} {bs : List β} (h : List.Forall₂ r as bs) {f : α → Except Error γ}
    {g : β → Except Error δ} (hf : ∀ a b, r a b → Both q (f a) (g b)) :
    Both (List.Forall₂ q) (as.mapM f) (bs.mapM g) := by
  induction h with
  | nil => exact .ok .nil
  | cons h _ ih =>
    rw [List.mapM_cons, List.mapM_cons]
    exact (hf _ _ h).bind fun _ _ h₁ => ih.bind fun _ _ h₂ => .ok (.cons h₁ h₂)

end Both

/-- Being named alike, with related values. -/
abbrev NamedRel {α α' : Type} (r : α → α' → Prop) :
    List (String × α) → List (String × α') → Prop := List.Forall₂ (PairRel Eq r)

theorem forall₂_refl {α : Type} {r : α → α → Prop} (hr : ∀ a, r a a) (l : List α) :
    List.Forall₂ r l l := List.forall₂_same.2 fun a _ => hr a

theorem eq_of_forall₂ {α : Type} {l l' : List α} (h : List.Forall₂ Eq l l') : l = l' := by
  rwa [List.forall₂_eq_eq_eq] at h

/-- What two functions make of the same entries is related if it is for each entry. -/
theorem forall₂_map {α β γ : Type} {r : β → γ → Prop} {f : α → β} {g : α → γ}
    (h : ∀ a, r (f a) (g a)) (l : List α) : List.Forall₂ r (l.map f) (l.map g) :=
  List.forall₂_map_left_iff.2 (List.forall₂_map_right_iff.2 (forall₂_refl h l))

section Forall₂

variable {α β : Type} {r : α → β → Prop} {l : List α} {l' : List β}

theorem isEmpty_of_forall₂ (h : List.Forall₂ r l l') : l.isEmpty = l'.isEmpty := by
  cases h <;> rfl

/-- A test that related entries pass alike is passed by all on either side or on neither. -/
theorem all_of_forall₂ (h : List.Forall₂ r l l') {p : α → Bool} {q : β → Bool}
    (hp : ∀ a b, r a b → p a = q b) : l.all p = l'.all q := by
  induction h with
  | nil => rfl
  | cons h _ ih => rw [List.all_cons, List.all_cons, hp _ _ h, ih]

end Forall₂

theorem NamedRel.refl {α : Type} {r : α → α → Prop} (hr : ∀ a, r a a) (named : List (String × α)) :
    NamedRel r named named :=
  forall₂_refl (fun e => .mk rfl (hr e.2)) named

section

variable {α β γ δ : Type} {r r' : α → β → Prop} {q : γ → δ → Prop}

/-! ### Tables -/

/-- Having the same names in the same order, with related values. -/
structure Table.Rel (r : α → β → Prop) (t : Table α) (u : Table β) : Prop where
  entries : NamedRel r t.entries u.entries

namespace Table.Rel

variable {t : Table α} {u : Table β}

theorem empty : Table.Rel r Table.empty Table.empty := ⟨.nil⟩

theorem mono (h : t.Rel r u) (hr : ∀ a b, r a b → r' a b) : t.Rel r' u :=
  ⟨h.entries.imp fun _ _ hp => hp.imp (fun _ _ => id) hr⟩

theorem keys (h : t.Rel r u) : t.keys = u.keys :=
  eq_of_forall₂ (List.rel_map (fun _ _ hp => hp.left) h.entries)

theorem values (h : t.Rel r u) : List.Forall₂ r t.values u.values :=
  List.rel_map (fun _ _ hp => hp.right) h.entries

theorem find? (h : t.Rel r u) (key : String) : Option.Rel r (t.find? key) (u.find? key) := by
  have he := h.entries
  revert he
  show _ → Option.Rel r (Entries.find? key t.entries) (Entries.find? key u.entries)
  generalize t.entries = es, u.entries = es'
  intro he
  induction he with
  | nil => exact .none
  | cons hp _ ih =>
    cases hp with
    | mk hk hv =>
      cases hk
      unfold Entries.find?
      split
      · exact .some hv
      · exact ih

theorem contains (h : t.Rel r u) (key : String) : t.contains key = u.contains key :=
  (h.find? key).isSome

theorem insert (h : t.Rel r u) (key : String) {a : α} {b : β} (hv : r a b) :
    (t.insert key a).Rel r (u.insert key b) := by
  refine ⟨?_⟩
  have he := h.entries
  revert he
  show _ → NamedRel r (Entries.insert key a t.entries) (Entries.insert key b u.entries)
  generalize t.entries = es, u.entries = es'
  intro he
  induction he with
  | nil => exact .cons (.mk rfl hv) .nil
  | cons hp hs ih =>
    cases hp with
    | mk hk hw =>
      cases hk
      unfold Entries.insert
      split
      · exact .cons (.mk rfl hv) hs
      · exact .cons (.mk rfl hw) ih

theorem erase (h : t.Rel r u) (key : String) : (t.erase key).Rel r (u.erase key) :=
  ⟨List.rel_filter (fun e e' hp => by simp only [hp.left]) h.entries⟩

theorem ofList {named : List (String × α)} {named' : List (String × β)}
    (h : NamedRel r named named') : (Table.ofList named).Rel r (Table.ofList named') := by
  unfold Table.ofList Table.insertAll
  refine List.rel_foldl (P := Table.Rel r) ?_ empty h
  intro t u ht p p' hp
  cases hp with
  | mk hk hv =>
    cases hk
    exact ht.insert _ hv

end Table.Rel

/-! ### Arrays -/

/-- Being as long, with related entries. -/
structure Rows (r : α → β → Prop) (a : Array α) (b : Array β) : Prop where
  toList : List.Forall₂ r a.toList b.toList

namespace Rows

variable {a : Array α} {b : Array β}

theorem mono (h : Rows r a b) (hr : ∀ a b, r a b → r' a b) : Rows r' a b :=
  ⟨h.toList.imp fun _ _ => hr _ _⟩

theorem size (h : Rows r a b) : a.size = b.size := h.toList.length_eq

theorem getElem? (h : Rows r a b) (i : Nat) : Option.Rel r a[i]? b[i]? := by
  have hl := h.toList
  revert hl
  rw [← Array.getElem?_toList, ← Array.getElem?_toList]
  generalize a.toList = as, b.toList = bs
  intro hl
  induction hl generalizing i with
  | nil => exact .none
  | cons h _ ih =>
    cases i with
    | zero => exact .some h
    | succ i => exact ih i

theorem of_getElem? (h : ∀ i : Nat, Option.Rel r a[i]? b[i]?) : Rows r a b := by
  refine ⟨?_⟩
  have hl (i : Nat) : Option.Rel r a.toList[i]? b.toList[i]? := by
    rw [Array.getElem?_toList, Array.getElem?_toList]
    exact h i
  revert hl
  generalize a.toList = as, b.toList = bs
  intro hl
  induction as generalizing bs with
  | nil =>
    cases bs with
    | nil => exact .nil
    | cons b bs => cases hl 0
  | cons a as ih =>
    cases bs with
    | nil => cases hl 0
    | cons b bs =>
      refine .cons ?_ (ih bs fun i => hl (i + 1))
      cases hl 0
      assumption

theorem push (h : Rows r a b) {x : α} {y : β} (hx : r x y) : Rows r (a.push x) (b.push y) := by
  refine ⟨?_⟩
  rw [Array.toList_push, Array.toList_push]
  exact List.rel_append h.toList (.cons hx .nil)

theorem setIfInBounds (h : Rows r a b) (i : Nat) {x : α} {y : β} (hx : r x y) :
    Rows r (a.setIfInBounds i x) (b.setIfInBounds i y) := by
  refine of_getElem? fun j => ?_
  rw [Array.getElem?_setIfInBounds, Array.getElem?_setIfInBounds, h.size]
  split
  · split
    · exact .some hx
    · exact .none
  · exact h.getElem? j

theorem modify (h : Rows r a b) (i : Nat) {f : α → α} {g : β → β}
    (hf : ∀ x y, r x y → r (f x) (g y)) : Rows r (a.modify i f) (b.modify i g) := by
  refine of_getElem? fun j => ?_
  rw [Array.getElem?_modify, Array.getElem?_modify]
  split
  · exact (h.getElem? j).map hf
  · exact h.getElem? j

/-- The first entry that passes a test stands at the same place. -/
theorem findIdx? (h : Rows r a b) {p : α → Bool} {q : β → Bool} (hp : ∀ x y, r x y → p x = q y) :
    a.findIdx? p = b.findIdx? q := by
  obtain ⟨as⟩ := a
  obtain ⟨bs⟩ := b
  rw [List.findIdx?_toArray, List.findIdx?_toArray]
  have hl : List.Forall₂ r as bs := h.toList
  clear h
  induction hl with
  | nil => rfl
  | cons hx _ ih => rw [List.findIdx?_cons, List.findIdx?_cons, hp _ _ hx, ih]

end Rows

end

end RuleTree
