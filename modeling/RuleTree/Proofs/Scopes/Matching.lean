import RuleTree.Proofs.Rebuilding.Alike
import RuleTree.Proofs.Scopes.Related

/-!
# Values of two runs

In two runs of one script, the objects that statements make may have different numbers.

* `Matching`: which numbers stand for each other, and `Matching.OneToOne`: none stands for two;
* `Generator.Tallies`, `Identity.Tallies`, `Datum.Tallies`: objects and values that are the same but
  for such numbers;
* `Datum.Tallies.bare`: without their numbers they are the same value;
* `Datum.Tallies.identities`: they refer to objects that stand for each other;
* `Datum.Tallies.equals`, `Datum.Tallies.ofPairs`: they are equal to such values alike, and so are
  dictionaries of them;
* `Datum.Tallies.plus`: appending such values to such values gives such values.
-/

namespace RuleTree

/-! ### Objects -/

/-- Which numbers of the objects that statements make stand for each other. -/
structure Matching where
  stamp : Stamp → Stamp → Prop
  inline : Nat → Nat → Prop

namespace Matching

/-- Matching whatever another one matches. -/
structure Le (μ ν : Matching) : Prop where
  stamp {s t : Stamp} : μ.stamp s t → ν.stamp s t
  inline {i j : Nat} : μ.inline i j → ν.inline i j

/-- Matching no number with two. -/
structure OneToOne (μ : Matching) : Prop where
  stamp {s t s' t' : Stamp} : μ.stamp s t → μ.stamp s' t' → (s = s' ↔ t = t')
  inline {i j i' j' : Nat} : μ.inline i j → μ.inline i' j' → (i = i' ↔ j = j')

variable {μ ν ρ : Matching}

theorem Le.refl (μ : Matching) : μ.Le μ := ⟨id, id⟩

theorem Le.trans (h : μ.Le ν) (h' : ν.Le ρ) : μ.Le ρ :=
  ⟨fun h₁ => h'.stamp (h.stamp h₁), fun h₁ => h'.inline (h.inline h₁)⟩

end Matching

variable {μ ν : Matching}

/-- Being the same generator, or two that were written in place and stand for each other. -/
inductive Generator.Tallies (μ : Matching) : Generator → Generator → Prop
  | named (name : String) : Tallies μ (.named name) (.named name)
  | inline {i j : Nat} (h : μ.inline i j) : Tallies μ (.inline i) (.inline j)

/-- Being the same object, or two that statements made and that stand for each other. -/
inductive Identity.Tallies (μ : Matching) : Identity → Identity → Prop
  | host (id : HostId) : Tallies μ (.host id) (.host id)
  | generator {g g' : Generator} (h : g.Tallies μ g') : Tallies μ (.generator g) (.generator g')
  | node (id : NodeId) : Tallies μ (.node id) (.node id)
  | made {s t : Stamp} (h : μ.stamp s t) : Tallies μ (.made s) (.made t)

theorem Generator.Tallies.mono {g g' : Generator} (hle : μ.Le ν) (h : g.Tallies μ g') :
    g.Tallies ν g' := by
  cases h with
  | named name => exact .named name
  | inline h => exact .inline (hle.inline h)

theorem Identity.Tallies.mono {i i' : Identity} (hle : μ.Le ν) (h : i.Tallies μ i') :
    i.Tallies ν i' := by
  cases h with
  | host id => exact .host id
  | generator h => exact .generator (h.mono hle)
  | node id => exact .node id
  | made h => exact .made (hle.stamp h)

/-- Two objects are the same if and only if those are that stand for them. -/
theorem Identity.Tallies.eq_iff {i i' j j' : Identity} (hμ : μ.OneToOne) (hi : i.Tallies μ i')
    (hj : j.Tallies μ j') : i = j ↔ i' = j' := by
  cases hi with
  | made h =>
    cases hj with
    | made h' => simpa using hμ.stamp h h'
    | _ => simp
  | generator h =>
    cases hj with
    | generator h' =>
      cases h with
      | named name => cases h' <;> simp
      | inline h =>
        cases h' with
        | named name => simp
        | inline h' => simpa using hμ.inline h h'
    | _ => simp
  | host id => cases hj <;> simp
  | node id => cases hj <;> simp

theorem Identity.Tallies.nodes (ids : List NodeId) :
    List.Forall₂ (Identity.Tallies μ) (ids.map .node) (ids.map .node) :=
  forall₂_map .node ids

/-! ### Values -/

/-- Being the same value but for the numbers of what statements made. -/
inductive Datum.Tallies (μ : Matching) : Datum → Datum → Prop
  | null : Tallies μ .null .null
  | bool (b : Bool) : Tallies μ (.bool b) (.bool b)
  | int (n : Int) : Tallies μ (.int n) (.int n)
  | float (x : Double) {s t : Stamp} (h : μ.stamp s t) : Tallies μ (.float x s) (.float x t)
  | text (s : String) : Tallies μ (.text s) (.text s)
  | list {xs ys : List Datum} (h : List.Forall₂ (Tallies μ) xs ys) : Tallies μ (.list xs) (.list ys)
  | dict {xs ys : List (Datum × Datum)} (h : List.Forall₂ (PairRel (Tallies μ) (Tallies μ)) xs ys) :
    Tallies μ (.dict xs) (.dict ys)
  | kind (name : String) {s t : Stamp} (h : μ.stamp s t) : Tallies μ (.kind name s) (.kind name t)
  | naming (rule : Naming) {s t : Stamp} (h : μ.stamp s t) :
    Tallies μ (.naming rule s) (.naming rule t)
  | host (id : HostId) : Tallies μ (.host id) (.host id)
  | generator {g g' : Generator} (h : g.Tallies μ g') : Tallies μ (.generator g) (.generator g')
  | node (id : NodeId) : Tallies μ (.node id) (.node id)
  | nodes (ids : List NodeId) : Tallies μ (.nodes ids) (.nodes ids)
  | answer (fields : List (String × Picture)) : Tallies μ (.answer fields) (.answer fields)

namespace Datum.Tallies

variable {a b d a' b' d' : Datum}

mutual

theorem monoOf (hle : μ.Le ν) : (d d' : Datum) → d.Tallies μ d' → d.Tallies ν d'
  | _, _, .null => .null
  | _, _, .bool b => .bool b
  | _, _, .int n => .int n
  | _, _, .float x h => .float x (hle.stamp h)
  | _, _, .text s => .text s
  | .list xs, .list ys, .list h => .list (monoItems hle xs ys h)
  | .dict xs, .dict ys, .dict h => .dict (monoEntries hle xs ys h)
  | _, _, .kind name h => .kind name (hle.stamp h)
  | _, _, .naming rule h => .naming rule (hle.stamp h)
  | _, _, .host id => .host id
  | _, _, .generator h => .generator (h.mono hle)
  | _, _, .node id => .node id
  | _, _, .nodes ids => .nodes ids
  | _, _, .answer fields => .answer fields

theorem monoItems (hle : μ.Le ν) : (xs ys : List Datum) →
    List.Forall₂ (Datum.Tallies μ) xs ys → List.Forall₂ (Datum.Tallies ν) xs ys
  | [], [], .nil => .nil
  | x :: xs, y :: ys, .cons h hs => .cons (monoOf hle x y h) (monoItems hle xs ys hs)

theorem monoEntries (hle : μ.Le ν) : (xs ys : List (Datum × Datum)) →
    List.Forall₂ (PairRel (Datum.Tallies μ) (Datum.Tallies μ)) xs ys →
      List.Forall₂ (PairRel (Datum.Tallies ν) (Datum.Tallies ν)) xs ys
  | [], [], .nil => .nil
  | (k, v) :: xs, (k', v') :: ys, .cons (.mk hk hv) hs =>
    .cons (.mk (monoOf hle k k' hk) (monoOf hle v v' hv)) (monoEntries hle xs ys hs)

end

theorem mono (hle : μ.Le ν) (h : d.Tallies μ d') : d.Tallies ν d' := monoOf hle d d' h

mutual

theorem bareOf : (d d' : Datum) → d.Tallies μ d' → d.bare = d'.bare
  | _, _, .null | _, _, .bool _ | _, _, .int _ | _, _, .float _ _ | _, _, .text _ => rfl
  | .list xs, .list ys, .list h => congrArg Datum.list (bareItems xs ys h)
  | .dict xs, .dict ys, .dict h => congrArg Datum.dict (bareEntries xs ys h)
  | _, _, .kind _ _ | _, _, .naming _ _ | _, _, .host _ | _, _, .node _ | _, _, .nodes _ => rfl
  | _, _, .generator h => by cases h <;> rfl
  | _, _, .answer _ => rfl

theorem bareItems : (xs ys : List Datum) → List.Forall₂ (Datum.Tallies μ) xs ys →
    renumberItems (fun _ => 0) (fun _ => 0) xs = renumberItems (fun _ => 0) (fun _ => 0) ys
  | [], [], .nil => rfl
  | x :: xs, y :: ys, .cons h hs => by
    rw [renumberItems, renumberItems, bareItems xs ys hs]
    exact congrArg (· :: _) (bareOf x y h)

theorem bareEntries : (xs ys : List (Datum × Datum)) →
    List.Forall₂ (PairRel (Datum.Tallies μ) (Datum.Tallies μ)) xs ys →
      renumberEntries (fun _ => 0) (fun _ => 0) xs = renumberEntries (fun _ => 0) (fun _ => 0) ys
  | [], [], .nil => rfl
  | (k, v) :: xs, (k', v') :: ys, .cons (.mk hk hv) hs => by
    rw [renumberEntries, renumberEntries, bareEntries xs ys hs]
    exact congrArg (· :: _) (congrArg₂ Prod.mk (bareOf k k' hk) (bareOf v v' hv))

end

/-- Without their numbers they are the same. -/
theorem bare (h : d.Tallies μ d') : d.bare = d'.bare := bareOf d d' h

theorem identity? (h : d.Tallies μ d') :
    Option.Rel (Identity.Tallies μ) d.identity? d'.identity? := by
  cases h with
  | kind _ h => exact .some (.made h)
  | naming _ h => exact .some (.made h)
  | host id => exact .some (.host id)
  | generator h => exact .some (.generator h)
  | node id => exact .some (.node id)
  | _ => exact .none

mutual

theorem identitiesOf : (d d' : Datum) → d.Tallies μ d' →
    List.Forall₂ (Identity.Tallies μ) d.identities d'.identities
  | _, _, .null | _, _, .bool _ | _, _, .int _ | _, _, .float _ _ | _, _, .text _ => .nil
  | .list xs, .list ys, .list h => identitiesItems xs ys h
  | .dict xs, .dict ys, .dict h => identitiesEntries xs ys h
  | _, _, .kind _ h => .cons (.made h) .nil
  | _, _, .naming _ h => .cons (.made h) .nil
  | _, _, .host id => .cons (.host id) .nil
  | _, _, .generator h => .cons (.generator h) .nil
  | _, _, .node id => .cons (.node id) .nil
  | _, _, .nodes ids => Identity.Tallies.nodes ids
  | _, _, .answer _ => .nil

theorem identitiesItems : (xs ys : List Datum) → List.Forall₂ (Datum.Tallies μ) xs ys →
    List.Forall₂ (Identity.Tallies μ) (itemIdentities xs) (itemIdentities ys)
  | [], [], .nil => .nil
  | x :: xs, y :: ys, .cons h hs => List.rel_append (identitiesOf x y h) (identitiesItems xs ys hs)

theorem identitiesEntries : (xs ys : List (Datum × Datum)) →
    List.Forall₂ (PairRel (Datum.Tallies μ) (Datum.Tallies μ)) xs ys →
      List.Forall₂ (Identity.Tallies μ) (entryIdentities xs) (entryIdentities ys)
  | [], [], .nil => .nil
  | (k, v) :: xs, (k', v') :: ys, .cons (.mk hk hv) hs =>
    List.rel_append (List.rel_append (identitiesOf k k' hk) (identitiesOf v v' hv))
      (identitiesEntries xs ys hs)

end

/-- Values that tally refer to objects that stand for each other. -/
theorem identities (h : d.Tallies μ d') :
    List.Forall₂ (Identity.Tallies μ) d.identities d'.identities := identitiesOf d d' h

theorem isNull (h : d.Tallies μ d') : d.isNull = d'.isNull := by cases h <;> rfl

theorem truthy (h : d.Tallies μ d') : d.truthy = d'.truthy := by
  cases h with
  | list h => cases h <;> rfl
  | dict h => cases h <;> rfl
  | _ => rfl

theorem toInt? (h : d.Tallies μ d') : d.toInt? = d'.toInt? := by cases h <;> rfl

theorem wholeNumber? (h : d.Tallies μ d') : d.wholeNumber? = d'.wholeNumber? := by cases h <;> rfl

theorem isNumber (h : d.Tallies μ d') : d.isNumber = d'.isNumber := by cases h <;> rfl

theorem toDouble (h : d.Tallies μ d') : d.toDouble = d'.toDouble := by
  cases h <;> rfl

/-! ### Equality -/

/-- Whether they are the same object does not depend on the numbers. -/
theorem sameObject (hμ : μ.OneToOne) (ha : a.Tallies μ a') (hb : b.Tallies μ b') :
    sameObject a b = Datum.sameObject a' b' := by
  have objects : (a.identity?.elim false fun i => b.identity?.elim false fun j => i == j) =
      (a'.identity?.elim false fun i => b'.identity?.elim false fun j => i == j) := by
    have hi := ha.identity?
    have hj := hb.identity?
    revert hi hj
    generalize a.identity? = i, a'.identity? = i', b.identity? = j, b'.identity? = j'
    rintro (hi | _) (hj | _) <;> try rfl
    show (_ == _) = (_ == _)
    rw [Bool.eq_iff_iff, beq_iff_eq, beq_iff_eq]
    exact hi.eq_iff hμ hj
  cases ha with
  | float x h =>
    cases hb with
    | float y h' =>
      show (_ == _) = (_ == _)
      rw [Bool.eq_iff_iff, beq_iff_eq, beq_iff_eq]
      exact hμ.stamp h h'
    | _ => exact objects
  | _ => cases hb <;> exact objects

section Equal

variable {equal equal' : Identity → Identity → Bool} (hμ : μ.OneToOne)
  (he : ∀ {i i' j j' : Identity}, i.Tallies μ i' → j.Tallies μ j' → equal i j = equal' i' j')

include he in
/-- Whether values are equal is the same for those that tally with them. -/
theorem equals (ha : a.Tallies μ a') (hb : b.Tallies μ b') :
    Datum.equals equal a b = Datum.equals equal' a' b' := by
  unfold Datum.equals
  rw [ha.toInt?, hb.toInt?]
  cases a'.toInt? with
  | some m => cases b'.toInt? <;> rfl
  | none =>
    cases b'.toInt? with
    | some n => rfl
    | none =>
      -- what is told by its contents is told apart from objects first
      have hi := ha.identity?
      have hj := hb.identity?
      revert hi hj
      generalize a.identity? = i, a'.identity? = i', b.identity? = j, b'.identity? = j'
      rintro (hi | _) (hj | _)
      · exact he hi hj
      · rfl
      · rfl
      · cases ha with
        | float x => cases hb with
          | float y => cases x <;> cases y <;> rfl
          | _ => cases x <;> rfl
        | _ => cases hb <;> rfl

include hμ he in
theorem sameKey (ha : a.Tallies μ a') (hb : b.Tallies μ b') :
    Datum.sameKey equal a b = Datum.sameKey equal' a' b' := by
  unfold Datum.sameKey
  rw [ha.sameObject hμ hb, ha.equals he hb]

theorem isKey {hash hash' : Identity → Bool}
    (hh : ∀ {i i' : Identity}, i.Tallies μ i' → hash i = hash' i') (h : d.Tallies μ d') :
    Datum.isKey hash d = Datum.isKey hash' d' := by
  have key : (d.identity?.map hash).getD true = (d'.identity?.map hash').getD true := by
    have hi := h.identity?
    revert hi
    generalize d.identity? = i, d'.identity? = i'
    rintro (hi | _)
    · exact hh hi
    · rfl
  cases h <;> first | rfl | exact key

/-! ### Dictionaries -/

/-- Pairs of values that are the same but for numbers. -/
abbrev Entries (μ : Matching) : List (Datum × Datum) → List (Datum × Datum) → Prop :=
  List.Forall₂ (PairRel (Datum.Tallies μ) (Datum.Tallies μ))

section Keys

include hμ he

theorem insertEntry {k k' v v' : Datum} (hk : k.Tallies μ k') (hv : v.Tallies μ v')
    {xs ys : List (Datum × Datum)} (h : Entries μ xs ys) :
    Entries μ (Datum.insertEntry equal k v xs) (Datum.insertEntry equal' k' v' ys) := by
  induction h with
  | nil => exact .cons (.mk hk hv) .nil
  | @cons x y xs ys hx hs ih =>
    cases hx with
    | mk hx₁ hx₂ =>
      unfold Datum.insertEntry
      rw [hx₁.sameKey hμ he hk]
      split
      · exact .cons (.mk hx₁ hv) hs
      · exact .cons (.mk hx₁ hx₂) ih

theorem entriesOfPairs {xs ys : List (Datum × Datum)} (h : Entries μ xs ys) :
    Entries μ (Datum.entriesOfPairs equal xs) (Datum.entriesOfPairs equal' ys) := by
  unfold Datum.entriesOfPairs
  refine List.rel_foldl (P := Entries μ) ?_ .nil h
  intro es es' hes p p' hp
  exact insertEntry hμ he hp.left hp.right hes

theorem ofPairs {xs ys : List (Datum × Datum)} (h : Entries μ xs ys) :
    (Datum.ofPairs equal xs).Tallies μ (Datum.ofPairs equal' ys) := .dict (entriesOfPairs hμ he h)

end Keys

end Equal

/-! ### Parts of values -/

mutual

theorem refl_toDatum : (p : Picture) → p.toDatum.Tallies μ p.toDatum
  | .null => .null
  | .bool b => .bool b
  | .int n => .int n
  | .text s => .text s
  | .list items => .list (refl_toData items)
  | .record fields => .answer fields

theorem refl_toData : (ps : List Picture) →
    List.Forall₂ (Datum.Tallies μ) (Picture.toData ps) (Picture.toData ps)
  | [] => .nil
  | p :: rest => .cons (refl_toDatum p) (refl_toData rest)

end

theorem entries? (h : d.Tallies μ d') : Option.Rel (Entries μ) d.entries? d'.entries? := by
  cases h with
  | dict h => exact .some h
  | answer fields =>
    exact .some (forall₂_map (fun f => .mk (.text f.1) (refl_toDatum f.2)) fields)
  | _ => exact .none

theorem items? (h : d.Tallies μ d') :
    Option.Rel (List.Forall₂ (Datum.Tallies μ)) d.items? d'.items? := by
  cases h with
  | text s => exact .some (forall₂_map (fun c => .text _) s.toList)
  | list h => exact .some h
  | dict h => exact .some (List.rel_map (fun _ _ hp => hp.left) h)
  | nodes ids => exact .some (forall₂_map .node ids)
  | answer fields => exact .some (forall₂_map (fun f => .text f.1) fields)
  | _ => exact .none

/-- Appending values that are the same but for numbers. A sum may have a new number. -/
theorem plus (ha : a.Tallies μ a') (hb : b.Tallies μ b') {s t : Stamp} (hs : μ.stamp s t) :
    Both (Datum.Tallies μ) (Datum.plus s a b) (Datum.plus t a' b') := by
  have floats : Both (Datum.Tallies μ)
      (if a.isNumber && b.isNumber then do
          let x ← a.toDouble
          let y ← b.toDouble
          return .float (x.add y) s
        else .error .notAppendable)
      (if a'.isNumber && b'.isNumber then do
          let x ← a'.toDouble
          let y ← b'.toDouble
          return .float (x.add y) t
        else .error .notAppendable) := by
    rw [ha.isNumber, hb.isNumber, ha.toDouble, hb.toDouble]
    split
    · refine (Both.of_eq (rfl : a'.toDouble = a'.toDouble)).bind ?_
      rintro x _ rfl
      refine (Both.of_eq (rfl : b'.toDouble = b'.toDouble)).bind ?_
      rintro y _ rfl
      exact .ok (.float _ hs)
    · exact .error _
  have numbers {x y : Except Error Datum} (hxy : Both (Datum.Tallies μ) x y) :
      Both (Datum.Tallies μ)
        (a.wholeNumber?.elim x fun m => b.wholeNumber?.elim x fun n => .ok (.int (m + n)))
        (a'.wholeNumber?.elim y fun m => b'.wholeNumber?.elim y fun n => .ok (.int (m + n))) := by
    rw [ha.wholeNumber?, hb.wholeNumber?]
    cases a'.wholeNumber? with
    | none => exact hxy
    | some m =>
      cases b'.wholeNumber? with
      | none => exact hxy
      | some n => exact .ok (.int _)
  cases ha with
  | text s =>
    cases hb with
    | text t => exact .ok (.text _)
    | _ => exact numbers floats
  | list h =>
    cases hb with
    | list h' => exact .ok (.list (List.rel_append h h'))
    | _ => exact numbers floats
  | nodes ids =>
    cases hb with
    | nodes ids' => exact .ok (.nodes _)
    | _ => exact numbers floats
  | _ => cases hb <;> exact numbers floats

end Datum.Tallies

end RuleTree
