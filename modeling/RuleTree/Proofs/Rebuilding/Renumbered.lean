import RuleTree.Declaration
import RuleTree.Selector.Method
import RuleTree.Store.Appearance

/-!
# Data up to the numbers of the objects that statements make

* `Agree`: two computations that both succeed, or fail with the same error;
* `Datum.renumber`, `Datum.bare`: a value with other numbers, or with none, for the objects that
  statements make;
* `Datum.Detached`: a value that refers to no host and to no rule set;
* `Datum.label_renumber`, `Datum.picture_renumber`: a value is shown and told alike wherever the
  objects are that it refers to, whatever its numbers;
* `Datum.bare_plus`: appending does not look at the numbers;
* `Datum.label_agree`, `Datum.picture_agree`: whether a value can be shown depends only on whether
  the rule sets can be shown that it refers to.
-/

namespace RuleTree

/-! ### Succeeding and failing alike -/

/-- Both succeeding, or both failing with the same error. -/
def Agree {α β : Type} (x : Except Error α) (y : Except Error β) : Prop :=
  x.map (fun _ => ()) = y.map fun _ => ()

namespace Agree

variable {α β γ δ : Type} {x : Except Error α} {y : Except Error β}

theorem ok (a : α) (b : β) : Agree (.ok a : Except Error α) (.ok b : Except Error β) := rfl

theorem error (e : Error) : Agree (.error e : Except Error α) (.error e : Except Error β) := rfl

theorem refl (x : Except Error α) : Agree x x := rfl

theorem symm (h : Agree x y) : Agree y x := Eq.symm h

theorem trans {z : Except Error γ} (h : Agree x y) (h' : Agree y z) : Agree x z := Eq.trans h h'

/-- Agreeing computations, told apart. -/
theorem cases_on (h : Agree x y) :
    (∃ e, x = .error e ∧ y = .error e) ∨ ∃ a b, x = .ok a ∧ y = .ok b := by
  cases x <;> cases y
  · exact .inl ⟨_, rfl, congrArg Except.error (Except.error.inj h).symm⟩
  · cases h
  · cases h
  · exact .inr ⟨_, _, rfl, rfl⟩

theorem map (h : Agree x y) (f : α → γ) (g : β → δ) : Agree (x.map f) (y.map g) := by
  rcases h.cases_on with ⟨e, rfl, rfl⟩ | ⟨a, b, rfl, rfl⟩ <;> rfl

theorem bind {f : α → Except Error γ} {g : β → Except Error δ} (h : Agree x y)
    (hf : ∀ a b, Agree (f a) (g b)) : Agree (x >>= f) (y >>= g) := by
  rcases h.cases_on with ⟨e, rfl, rfl⟩ | ⟨a, b, rfl, rfl⟩
  · rfl
  · exact hf a b

theorem mapM {as : List γ} {f : γ → Except Error α} {g : γ → Except Error β}
    (h : ∀ a ∈ as, Agree (f a) (g a)) : Agree (as.mapM f) (as.mapM g) := by
  induction as with
  | nil => rfl
  | cons a as ih =>
    rw [List.mapM_cons, List.mapM_cons]
    exact (h a List.mem_cons_self).bind fun _ _ =>
      (ih fun a ha => h a (List.mem_cons_of_mem _ ha)).bind fun _ _ => .ok _ _

end Agree

/-- Computations that come to the same for each of some things do so for their list. -/
theorem mapM_congr {α β : Type} {f g : α → Except Error β} {l : List α}
    (h : ∀ x ∈ l, f x = g x) : l.mapM f = l.mapM g := by
  induction l with
  | nil => rfl
  | cons x l ih =>
    rw [List.mapM_cons, List.mapM_cons, h x List.mem_cons_self,
      ih fun y hy => h y (List.mem_cons_of_mem _ hy)]

/-! ### Renumbering -/

/-- A generator with another number, if it was written in place. -/
def Generator.renumber (g : Nat → Nat) : Generator → Generator
  | named name => named name
  | inline id => inline (g id)

/-- An identity with another number, if a statement made the object. -/
def Identity.renumber (f : Stamp → Stamp) (g : Nat → Nat) : Identity → Identity
  | host id => host id
  | generator gen => generator (gen.renumber g)
  | node id => node id
  | made stamp => made (f stamp)

namespace Datum

mutual

/-- A value with other numbers for what statements make: floating-point numbers, kinds of element
and naming rules on the one hand, generators written in place on the other. -/
def renumber (f : Stamp → Stamp) (g : Nat → Nat) : Datum → Datum
  | .null => .null
  | .bool b => .bool b
  | .int n => .int n
  | .float x stamp => .float x (f stamp)
  | .text s => .text s
  | .list items => .list (renumberItems f g items)
  | .dict entries => .dict (renumberEntries f g entries)
  | .kind name stamp => .kind name (f stamp)
  | .naming rule stamp => .naming rule (f stamp)
  | .host id => .host id
  | .generator gen => .generator (gen.renumber g)
  | .node id => .node id
  | .nodes ids => .nodes ids
  | .answer fields => .answer fields

/-- The items of a list with other numbers. -/
def renumberItems (f : Stamp → Stamp) (g : Nat → Nat) : List Datum → List Datum
  | [] => []
  | d :: rest => renumber f g d :: renumberItems f g rest

/-- The entries of a dictionary with other numbers. -/
def renumberEntries (f : Stamp → Stamp) (g : Nat → Nat) :
    List (Datum × Datum) → List (Datum × Datum)
  | [] => []
  | (k, v) :: rest => (renumber f g k, renumber f g v) :: renumberEntries f g rest

end

/-- A value without numbers. -/
def bare (d : Datum) : Datum := d.renumber (fun _ => 0) fun _ => 0

variable {f f' : Stamp → Stamp} {g g' : Nat → Nat} {d d' : Datum}

theorem renumberItems_eq_map (items : List Datum) :
    renumberItems f g items = items.map (renumber f g) := by
  induction items with
  | nil => rfl
  | cons d rest ih => rw [renumberItems, ih, List.map_cons]

theorem renumberEntries_eq_map (entries : List (Datum × Datum)) :
    renumberEntries f g entries = entries.map fun e => (e.1.renumber f g, e.2.renumber f g) := by
  induction entries with
  | nil => rfl
  | cons e rest ih => rw [renumberEntries, ih, List.map_cons]

mutual

theorem renumber_renumber : (d : Datum) →
    (d.renumber f g).renumber f' g' = d.renumber (f' ∘ f) (g' ∘ g)
  | .list items => by rw [renumber, renumber, renumberItems_renumberItems items, renumber]
  | .dict entries => by rw [renumber, renumber, renumberEntries_renumberEntries entries, renumber]
  | .generator gen => by cases gen <;> rfl
  | .null | .bool _ | .int _ | .float _ _ | .text _ | .kind _ _ | .naming _ _ | .host _ => rfl
  | .node _ | .nodes _ | .answer _ => rfl

theorem renumberItems_renumberItems : (items : List Datum) →
    renumberItems f' g' (renumberItems f g items) = renumberItems (f' ∘ f) (g' ∘ g) items
  | [] => rfl
  | d :: rest => by
    rw [renumberItems, renumberItems, renumber_renumber d, renumberItems_renumberItems rest,
      renumberItems]

theorem renumberEntries_renumberEntries : (entries : List (Datum × Datum)) →
    renumberEntries f' g' (renumberEntries f g entries) =
      renumberEntries (f' ∘ f) (g' ∘ g) entries
  | [] => rfl
  | (k, v) :: rest => by
    rw [renumberEntries, renumberEntries, renumber_renumber k, renumber_renumber v,
      renumberEntries_renumberEntries rest, renumberEntries]

end

/-- Whatever the numbers, without them a value is the same. -/
@[simp] theorem bare_renumber (d : Datum) : (d.renumber f g).bare = d.bare := renumber_renumber d

mutual

theorem identities_renumber : (d : Datum) →
    (d.renumber f g).identities = d.identities.map (Identity.renumber f g)
  | .list items => by rw [renumber, identities, identities, itemIdentities_renumberItems items]
  | .dict entries => by
    rw [renumber, identities, identities, entryIdentities_renumberEntries entries]
  | .nodes ids => by
    rw [renumber, identities, List.map_map]
    rfl
  | .generator _ | .null | .bool _ | .int _ | .float _ _ | .text _ | .kind _ _ | .naming _ _ => rfl
  | .host _ | .node _ | .answer _ => rfl

theorem itemIdentities_renumberItems : (items : List Datum) →
    itemIdentities (renumberItems f g items) = (itemIdentities items).map (Identity.renumber f g)
  | [] => rfl
  | d :: rest => by
    rw [renumberItems, itemIdentities, itemIdentities, identities_renumber d,
      itemIdentities_renumberItems rest, List.map_append]

theorem entryIdentities_renumberEntries : (entries : List (Datum × Datum)) →
    entryIdentities (renumberEntries f g entries) =
      (entryIdentities entries).map (Identity.renumber f g)
  | [] => rfl
  | (k, v) :: rest => by
    rw [renumberEntries, entryIdentities, entryIdentities, identities_renumber k,
      identities_renumber v, entryIdentities_renumberEntries rest, List.map_append,
      List.map_append]

end

/-! ### How values look -/

/-- Referring to no host and to no rule set. -/
def Detached (d : Datum) : Prop := ∀ i ∈ d.identities, ∀ n, i ≠ .host n ∧ i ≠ .node n

mutual

/-- A value looks the same wherever hosts and rule sets look the same that it refers to, and whatever
its numbers. -/
theorem label_renumber {look look' : Appearance} : (d : Datum) →
    (∀ id, .host id ∈ d.identities → look.host id = look'.host id) →
    (∀ n, .node n ∈ d.identities → look.node n = look'.node n) →
      label look (d.renumber f g) = label look' d
  | .list items, hh, hn => by rw [renumber, label, label, labels_renumber items hh hn]
  | .dict entries, hh, hn => by rw [renumber, label, label, entryLabels_renumber entries hh hn]
  | .host id, hh, _ => by rw [renumber, label, label, hh id List.mem_cons_self]
  | .node id, _, hn => hn id List.mem_cons_self
  | .nodes ids, _, hn => by
    rw [renumber, label, label,
      mapM_congr fun n hm => hn n (List.mem_map_of_mem hm)]
  | .generator gen, _, _ => by cases gen <;> rfl
  | .null, _, _ | .bool _, _, _ | .int _, _, _ | .float _ _, _, _ | .text _, _, _ => rfl
  | .kind _ _, _, _ | .naming _ _, _, _ | .answer _, _, _ => rfl

theorem labels_renumber {look look' : Appearance} : (items : List Datum) →
    (∀ id, .host id ∈ itemIdentities items → look.host id = look'.host id) →
    (∀ n, .node n ∈ itemIdentities items → look.node n = look'.node n) →
      labels look (renumberItems f g items) = labels look' items
  | [], _, _ => rfl
  | d :: rest, hh, hn => by
    rw [renumberItems, labels, labels,
      label_renumber d (fun id hi => hh id (List.mem_append_left _ hi))
        fun n hi => hn n (List.mem_append_left _ hi),
      labels_renumber rest (fun id hi => hh id (List.mem_append_right _ hi))
        fun n hi => hn n (List.mem_append_right _ hi)]

theorem entryLabels_renumber {look look' : Appearance} : (entries : List (Datum × Datum)) →
    (∀ id, .host id ∈ entryIdentities entries → look.host id = look'.host id) →
    (∀ n, .node n ∈ entryIdentities entries → look.node n = look'.node n) →
      entryLabels look (renumberEntries f g entries) = entryLabels look' entries
  | [], _, _ => rfl
  | (k, v) :: rest, hh, hn => by
    have left {i : Identity} (hi : i ∈ k.identities) : i ∈ entryIdentities ((k, v) :: rest) :=
      List.mem_append_left _ (List.mem_append_left _ hi)
    have right {i : Identity} (hi : i ∈ v.identities) : i ∈ entryIdentities ((k, v) :: rest) :=
      List.mem_append_left _ (List.mem_append_right _ hi)
    rw [renumberEntries, entryLabels, entryLabels,
      label_renumber k (fun id hi => hh id (left hi)) fun n hi => hn n (left hi),
      label_renumber v (fun id hi => hh id (right hi)) fun n hi => hn n (right hi),
      entryLabels_renumber rest (fun id hi => hh id (List.mem_append_right _ hi))
        fun n hi => hn n (List.mem_append_right _ hi)]

end

mutual

/-- What is told of a value does not depend on the numbers of what it refers to. -/
theorem picture_renumber {views views' : Views} (hf : views.form = views'.form) : (d : Datum) →
    (∀ id, .host id ∈ d.identities → views.host id = views'.host id) →
    (∀ n, .node n ∈ d.identities → views.node n = views'.node n) →
      picture views (d.renumber f g) = picture views' d
  | .list items, hh, hn => by rw [renumber, picture, picture, pictures_renumber hf items hh hn]
  | .dict entries, hh, hn => by
    rw [renumber, picture, picture, entryPictures_renumber hf entries hh hn, hf]
  | .int _, _, _ | .answer _, _, _ => by rw [renumber, picture, picture, hf]
  | .host id, hh, _ => by rw [renumber, picture, picture, hh id List.mem_cons_self]
  | .node id, _, hn => hn id List.mem_cons_self
  | .nodes ids, _, hn => by
    rw [renumber, picture, picture,
      mapM_congr fun n hm => hn n (List.mem_map_of_mem hm)]
  | .generator gen, _, _ => by cases gen <;> rfl
  | .null, _, _ | .bool _, _, _ | .float _ _, _, _ | .text _, _, _ => rfl
  | .kind _ _, _, _ | .naming _ _, _, _ => rfl

theorem pictures_renumber {views views' : Views} (hf : views.form = views'.form) :
    (items : List Datum) →
    (∀ id, .host id ∈ itemIdentities items → views.host id = views'.host id) →
    (∀ n, .node n ∈ itemIdentities items → views.node n = views'.node n) →
      pictures views (renumberItems f g items) = pictures views' items
  | [], _, _ => rfl
  | d :: rest, hh, hn => by
    rw [renumberItems, pictures, pictures,
      picture_renumber hf d (fun id hi => hh id (List.mem_append_left _ hi))
        fun n hi => hn n (List.mem_append_left _ hi),
      pictures_renumber hf rest (fun id hi => hh id (List.mem_append_right _ hi))
        fun n hi => hn n (List.mem_append_right _ hi)]

theorem entryPictures_renumber {views views' : Views} (hf : views.form = views'.form) :
    (entries : List (Datum × Datum)) →
    (∀ id, .host id ∈ entryIdentities entries → views.host id = views'.host id) →
    (∀ n, .node n ∈ entryIdentities entries → views.node n = views'.node n) →
      entryPictures views (renumberEntries f g entries) = entryPictures views' entries
  | [], _, _ => rfl
  | (k, v) :: rest, hh, hn => by
    have left {i : Identity} (hi : i ∈ k.identities) : i ∈ entryIdentities ((k, v) :: rest) :=
      List.mem_append_left _ (List.mem_append_left _ hi)
    have right {i : Identity} (hi : i ∈ v.identities) : i ∈ entryIdentities ((k, v) :: rest) :=
      List.mem_append_left _ (List.mem_append_right _ hi)
    rw [renumberEntries, entryPictures, entryPictures,
      picture_renumber hf k (fun id hi => hh id (left hi)) fun n hi => hn n (left hi),
      picture_renumber hf v (fun id hi => hh id (right hi)) fun n hi => hn n (right hi),
      entryPictures_renumber hf rest (fun id hi => hh id (List.mem_append_right _ hi))
        fun n hi => hn n (List.mem_append_right _ hi)]

end

mutual

/-- Whether a value can be shown depends only on the rule sets that it refers to. -/
theorem label_agree {look look' : Appearance} : (d : Datum) →
    (∀ n, .node n ∈ d.identities → Agree (look.node n) (look'.node n)) →
      Agree (label look (d.renumber f g)) (label look' d)
  | .list items, h => by
    rw [renumber, label, label]
    exact (labels_agree items h).map _ _
  | .dict entries, h => by
    rw [renumber, label, label]
    exact (entryLabels_agree entries h).map _ _
  | .host id, _ => .ok _ _
  | .node id, h => h id List.mem_cons_self
  | .nodes ids, h => by
    rw [renumber, label, label]
    exact (Agree.mapM fun n hn => h n (List.mem_map_of_mem hn)).map _ _
  | .generator _, _ => .ok _ _
  | .null, _ | .bool _, _ | .int _, _ | .float _ _, _ | .text _, _ | .kind _ _, _ => .refl _
  | .naming _ _, _ | .answer _, _ => .refl _

theorem labels_agree {look look' : Appearance} : (items : List Datum) →
    (∀ n, .node n ∈ itemIdentities items → Agree (look.node n) (look'.node n)) →
      Agree (labels look (renumberItems f g items)) (labels look' items)
  | [], _ => .ok _ _
  | d :: rest, h => by
    rw [renumberItems, labels, labels]
    exact (label_agree d fun n hn => h n (List.mem_append_left _ hn)).bind fun _ _ =>
      (labels_agree rest fun n hn => h n (List.mem_append_right _ hn)).bind fun _ _ => .ok _ _

theorem entryLabels_agree {look look' : Appearance} : (entries : List (Datum × Datum)) →
    (∀ n, .node n ∈ entryIdentities entries → Agree (look.node n) (look'.node n)) →
      Agree (entryLabels look (renumberEntries f g entries)) (entryLabels look' entries)
  | [], _ => .ok _ _
  | (k, v) :: rest, h => by
    rw [renumberEntries, entryLabels, entryLabels]
    exact (label_agree k fun n hn => h n (List.mem_append_left _ (List.mem_append_left _ hn))).bind
      fun _ _ => (label_agree v fun n hn =>
        h n (List.mem_append_left _ (List.mem_append_right _ hn))).bind fun _ _ =>
        (entryLabels_agree rest fun n hn => h n (List.mem_append_right _ hn)).bind fun _ _ =>
          .ok _ _

end

mutual

/-- Whether a value can be told depends only on the rule sets that it refers to. -/
theorem picture_agree {views views' : Views} (hf : views.form = views'.form) : (d : Datum) →
    (∀ n, .node n ∈ d.identities → Agree (views.node n) (views'.node n)) →
      Agree (picture views (d.renumber f g)) (picture views' d)
  | .list items, h => by
    rw [renumber, picture, picture]
    exact (pictures_agree hf items h).map _ _
  | .dict entries, h => by
    rw [renumber, picture, picture]
    exact (entryPictures_agree hf entries h).map _ _
  | .int _, _ => by
    rw [renumber, picture, picture, hf]
    exact .refl _
  | .host id, _ => .ok _ _
  | .node id, h => h id List.mem_cons_self
  | .nodes ids, h => by
    rw [renumber, picture, picture]
    exact (Agree.mapM fun n hn => h n (List.mem_map_of_mem hn)).map _ _
  | .generator _, _ | .answer _, _ => .ok _ _
  | .null, _ | .bool _, _ | .float _ _, _ | .text _, _ | .kind _ _, _ | .naming _ _, _ => .refl _

theorem pictures_agree {views views' : Views} (hf : views.form = views'.form) :
    (items : List Datum) →
    (∀ n, .node n ∈ itemIdentities items → Agree (views.node n) (views'.node n)) →
      Agree (pictures views (renumberItems f g items)) (pictures views' items)
  | [], _ => .ok _ _
  | d :: rest, h => by
    rw [renumberItems, pictures, pictures]
    exact (picture_agree hf d fun n hn => h n (List.mem_append_left _ hn)).bind fun _ _ =>
      (pictures_agree hf rest fun n hn => h n (List.mem_append_right _ hn)).bind fun _ _ => .ok _ _

theorem entryPictures_agree {views views' : Views} (hf : views.form = views'.form) :
    (entries : List (Datum × Datum)) →
    (∀ n, .node n ∈ entryIdentities entries → Agree (views.node n) (views'.node n)) →
      Agree (entryPictures views (renumberEntries f g entries)) (entryPictures views' entries)
  | [], _ => .ok _ _
  | (k, v) :: rest, h => by
    rw [renumberEntries, entryPictures, entryPictures]
    exact (picture_agree hf k fun n hn =>
        h n (List.mem_append_left _ (List.mem_append_left _ hn))).bind
      fun _ _ => (picture_agree hf v fun n hn =>
        h n (List.mem_append_left _ (List.mem_append_right _ hn))).bind fun _ _ =>
        (entryPictures_agree hf rest fun n hn => h n (List.mem_append_right _ hn)).bind fun _ _ =>
          .ok _ _

end

/-! ### What else is asked of values -/

/-- Appending does not look at the numbers. -/
theorem bare_plus (stamp : Stamp) (a b : Datum) :
    (plus stamp a b).map bare = plus 0 a.bare b.bare := by
  cases a <;> cases b <;> try rfl
  case bool.float b x _ =>
    change ((toDouble (.bool b)).bind fun u => .ok (.float (u.add x) stamp)).map bare =
      (toDouble (.bool b)).bind fun u => .ok (.float (u.add x) 0)
    cases toDouble (.bool b) <;> rfl
  case int.float n x _ =>
    change ((toDouble (.int n)).bind fun u => .ok (.float (u.add x) stamp)).map bare =
      (toDouble (.int n)).bind fun u => .ok (.float (u.add x) 0)
    cases toDouble (.int n) <;> rfl
  case float.bool x _ b =>
    change ((toDouble (.bool b)).bind fun u => .ok (.float (x.add u) stamp)).map bare =
      (toDouble (.bool b)).bind fun u => .ok (.float (x.add u) 0)
    cases toDouble (.bool b) <;> rfl
  case float.int x _ n =>
    change ((toDouble (.int n)).bind fun u => .ok (.float (x.add u) stamp)).map bare =
      (toDouble (.int n)).bind fun u => .ok (.float (x.add u) 0)
    cases toDouble (.int n) <;> rfl
  case list.list xs ys =>
    show Except.ok (list (renumberItems _ _ (xs ++ ys))) =
      .ok (list (renumberItems _ _ xs ++ renumberItems _ _ ys))
    rw [renumberItems_eq_map, renumberItems_eq_map, renumberItems_eq_map, List.map_append]

theorem isNull_renumber (d : Datum) : (d.renumber f g).isNull = d.isNull := by cases d <;> rfl

theorem truthy_renumber (d : Datum) : (d.renumber f g).truthy = d.truthy := by
  cases d with
  | list items => cases items <;> rfl
  | dict entries => cases entries <;> rfl
  | _ => rfl

mutual

theorem renumber_toDatum : (p : Picture) → p.toDatum.renumber f g = p.toDatum
  | .null | .bool _ | .int _ | .text _ | .record _ => rfl
  | .list items => by rw [Picture.toDatum, renumber, renumberItems_toData items]

theorem renumberItems_toData : (ps : List Picture) →
    renumberItems f g (Picture.toData ps) = Picture.toData ps
  | [] => rfl
  | p :: rest => by
    rw [Picture.toData, renumberItems, renumber_toDatum p, renumberItems_toData rest]

end

theorem entries?_renumber (d : Datum) : (d.renumber f g).entries? =
    d.entries?.map (List.map fun e => (e.1.renumber f g, e.2.renumber f g)) := by
  cases d with
  | dict entries => rw [renumber, renumberEntries_eq_map]; rfl
  | answer fields => simp [entries?, renumber, renumber_toDatum]
  | _ => rfl

end Datum

end RuleTree
