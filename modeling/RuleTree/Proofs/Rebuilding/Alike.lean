import RuleTree.Proofs.Rebuilding.Renumbered
import RuleTree.Proofs.Rebuilding.Tables
import RuleTree.Session.Eval
import Mathlib.Data.List.Forall2

/-!
# Values that are the same up to numbers

* `Datum.Alike`: two values that are the same up to numbers, and refer to no host and to no rule
  set;
* `Datum.ShownAlike`: a value whose objects look the same in two appearances;
* `Datum.ShownAlike.eq_of`, `Datum.Alike.eq_of`: whatever does not look at numbers is the same for two
  values that look the same;
* `Datum.Alike.fragmentOf`, `Datum.declarationsOf_eq`: so fragments are alike, and declarations the
  same;
* `Store.label_agree`, `Store.picture_agree`: whether rule sets can be shown depends on their
  selectors only.
-/

namespace RuleTree

namespace Datum

variable {d d' : Datum} {look look' : Appearance}

/-! ### The same up to numbers -/

theorem detached_bare : d.bare.Detached ↔ d.Detached := by
  unfold Detached bare
  rw [identities_renumber]
  constructor
  · intro h i hi n
    have hi' := h _ (List.mem_map_of_mem hi) n
    constructor
    · rintro rfl
      exact hi'.1 rfl
    · rintro rfl
      exact hi'.2 rfl
  · intro h i hi n
    obtain ⟨j, hj, rfl⟩ := List.mem_map.1 hi
    have hj' := h j hj
    cases j with
    | host id => exact absurd rfl (hj' id).1
    | node id => exact absurd rfl (hj' id).2
    | generator gen => exact ⟨nofun, nofun⟩
    | made stamp => exact ⟨nofun, nofun⟩

/-- Being the same up to numbers, and referring to no host and to no rule set. -/
structure Alike (d d' : Datum) : Prop where
  bare : d.bare = d'.bare
  detached : d.Detached

theorem Alike.symm (h : d.Alike d') : d'.Alike d :=
  ⟨h.bare.symm, detached_bare.1 (h.bare ▸ detached_bare.2 h.detached)⟩

/-- Looking the same in two appearances: so do the hosts that the value refers to, and a rule set that
it refers to is all that it is and has the same blocks. -/
structure ShownAlike (look look' : Appearance) (d : Datum) : Prop where
  host : ∀ id, .host id ∈ d.identities → look.host id = look'.host id
  node : ∀ n, .node n ∈ d.identities → d = .node n ∧ look.blocks n = look'.blocks n

theorem Detached.shownAlike (h : d.Detached) : d.ShownAlike look look' :=
  ⟨fun id hi => absurd rfl (h _ hi id).1, fun n hi => absurd rfl (h _ hi n).2⟩

/-- What is a rule set has the same blocks then. -/
theorem ShownAlike.blocks (h : d.ShownAlike look look') (n : NodeId) (hd : d = .node n) :
    look.blocks n = look'.blocks n :=
  (h.node n (by rw [hd]; exact List.mem_cons_self)).2

/-- What does not look at numbers is the same for two values that look the same. -/
theorem ShownAlike.eq_of {β : Type} {F : Appearance → Datum → β} (h : d.ShownAlike look look)
    (h' : d'.ShownAlike look look') (hb : d.bare = d'.bare)
    (hF : ∀ look look' d, d.ShownAlike look look' → F look (Datum.bare d) = F look' d) :
    F look d = F look' d' := by
  rw [← hF look look d h, hb, hF look look' d' h']

theorem Alike.eq_of {β : Type} {F : Appearance → Datum → β} (h : d.Alike d')
    (hF : ∀ look look' d, d.ShownAlike look look' → F look (Datum.bare d) = F look' d)
    (look look' : Appearance) : F look d = F look' d' :=
  h.detached.shownAlike.eq_of h.symm.detached.shownAlike h.bare hF

theorem Alike.isNull (h : d.Alike d') : d.isNull = d'.isNull := by
  rw [← isNull_renumber d, ← isNull_renumber d']
  exact congrArg _ h.bare

theorem spelled_bare (look look' : Appearance) (d : Datum) (h : d.ShownAlike look look') :
    d.bare.spelled look = d.spelled look' := by
  cases d with
  | text s => rfl
  | node id => exact congrArg (Except.map String.join) (h.blocks id rfl)
  | _ => exact label_renumber _ h.host fun n hn => nomatch (h.node n hn).1

/-- Among the texts that a value yields, those of a rule set are its blocks. -/
theorem texts_bare (look look' : Appearance) (d : Datum)
    (h : ∀ n, d = .node n → look.blocks n = look'.blocks n) :
    d.bare.texts look = d.texts look' := by
  cases d with
  | node id => exact h id rfl
  | list items =>
    show (renumberItems _ _ items).mapM _ = items.mapM _
    rw [renumberItems_eq_map, List.mapM_map]
    congr 1
    funext d
    cases d <;> rfl
  | dict entries =>
    show ((renumberEntries _ _ entries).map Prod.fst).mapM _ = (entries.map Prod.fst).mapM _
    rw [renumberEntries_eq_map, List.map_map, List.mapM_map, List.mapM_map]
    congr 1
    funext e
    simp only [Function.comp]
    cases e.1 <;> rfl
  | _ => rfl

theorem selectorList_bare (look look' : Appearance) (d : Datum)
    (h : ∀ n, d = .node n → look.blocks n = look'.blocks n) :
    selectorList look d.bare = selectorList look' d := by
  have key : (if d.bare.truthy then (d.bare.texts look).map (", ".intercalate ·) else .ok "") =
      if d.truthy then (d.texts look').map (", ".intercalate ·) else .ok "" := by
    rw [texts_bare look look' d h]
    show (if (d.renumber _ _).truthy then _ else _) = _
    rw [truthy_renumber]
  cases d with
  | text s => rfl
  | _ => exact key

theorem fragment_bare (s : Shortcut) (look look' : Appearance) (d : Datum)
    (h : d.ShownAlike look look') : s.fragment look d.bare = s.fragment look' d := by
  unfold Shortcut.fragment Shortcut.format
  rw [spelled_bare look look' d h, selectorList_bare look look' d h.blocks]

theorem propertyValue_bare (look look' : Appearance) (d : Datum) (h : d.ShownAlike look look') :
    propertyValue look d.bare = propertyValue look' d := by
  have plain {look : Appearance} {d : Datum} (h : ∀ b, d ≠ .bool b) :
      propertyValue look d = d.spelled look := by
    cases d with
    | bool b => exact absurd rfl (h b)
    | _ => rfl
  by_cases hb : ∃ b, d = .bool b
  · obtain ⟨b, rfl⟩ := hb
    rfl
  · have hb' (b : Bool) : d ≠ .bool b := fun e => hb ⟨b, e⟩
    rw [plain hb', plain fun b e => ?_]
    · exact spelled_bare look look' d h
    · cases d with
      | bool b => exact hb' b rfl
      | _ => cases e

/-- The fragments of arguments that are the same up to numbers are so too. -/
theorem Alike.fragmentOf (h : d.Alike d') (m : Method) (look look' : Appearance) :
    (∃ e, m.fragmentOf look d = .error e ∧ m.fragmentOf look' d' = .error e) ∨
      ∃ r r', m.fragmentOf look d = .ok r ∧ m.fragmentOf look' d' = .ok r' ∧ r.Alike r' := by
  have texts (c : Combinator) {x y : Except Error String} (hxy : x = y) :
      (∃ e, x.map (fun s => Datum.text (c.join s)) = .error e ∧
          y.map (fun s => Datum.text (c.join s)) = .error e) ∨
        ∃ r r', x.map (fun s => Datum.text (c.join s)) = .ok r ∧
          y.map (fun s => Datum.text (c.join s)) = .ok r' ∧ r.Alike r' := by
    subst hxy
    cases x with
    | error e => exact .inl ⟨e, rfl, rfl⟩
    | ok s => exact .inr ⟨_, _, rfl, rfl, rfl, nofun⟩
  cases m with
  | fragment => exact .inr ⟨d, d', rfl, rfl, h⟩
  | joined c => exact texts c (h.eq_of spelled_bare look look')
  | kind => exact texts .className (h.eq_of spelled_bare look look')
  | descendant => exact .inr ⟨_, _, rfl, rfl, rfl, nofun⟩
  | shortcut s =>
    unfold Method.fragmentOf
    simp only
    rw [h.eq_of (F := s.fragment) (fragment_bare s) look look']
    cases s.fragment look' d' with
    | error e => exact .inl ⟨e, rfl, rfl⟩
    | ok s => exact .inr ⟨_, _, rfl, rfl, rfl, nofun⟩

/-! ### Declarations -/

mutual

theorem identities_toDatum : (p : Picture) → p.toDatum.identities = []
  | .null | .bool _ | .int _ | .text _ | .record _ => rfl
  | .list items => by rw [Picture.toDatum, identities, itemIdentities_toData items]

theorem itemIdentities_toData : (ps : List Picture) → itemIdentities (Picture.toData ps) = []
  | [] => rfl
  | p :: rest => by
    rw [Picture.toData, itemIdentities, identities_toDatum p, itemIdentities_toData rest]
    rfl

end

theorem Detached.entries {entries : List (Datum × Datum)} (h : d.Detached)
    (he : d.entries? = some entries) : ∀ e ∈ entries, e.2.Detached := by
  intro e hm i hi
  cases d with
  | dict entries' =>
    cases he
    refine h i ?_
    show i ∈ entryIdentities entries
    clear h
    induction entries with
    | nil => cases hm
    | cons x rest ih =>
      obtain ⟨k, v⟩ := x
      rcases List.mem_cons.1 hm with rfl | hm
      · exact List.mem_append_left _ (List.mem_append_right _ hi)
      · exact List.mem_append_right _ (ih hm)
  | answer fields =>
    cases he
    obtain ⟨f, -, rfl⟩ := List.mem_map.1 hm
    rw [identities_toDatum] at hi
    cases hi
  | _ => cases he

theorem itemLine_bare {item : Datum × Datum} (h : item.2.ShownAlike look look') :
    itemLine look (item.1.bare, item.2.bare) = itemLine look' item := by
  have hn : propertyName? item.1.bare = propertyName? item.1 := by cases item.1 <;> rfl
  unfold itemLine
  simp only
  rw [hn, propertyValue_bare look look' item.2 h]

/-- All values that a mapping and keywords declare look the same in two appearances. -/
structure DeclaredAlike (look look' : Appearance) (properties : Datum) (keywords : Table Datum) :
    Prop where
  entries : ∀ es, properties.entries? = some es → ∀ e ∈ es, e.2.ShownAlike look look'
  keywords : ∀ e ∈ keywords.entries, e.2.ShownAlike look look'

theorem declarations_bare {properties : Datum} {keywords : Table Datum}
    (h : DeclaredAlike look look' properties keywords) :
    declarations look properties.bare (keywords.map bare) =
      declarations look' properties keywords := by
  have entries : propertyEntries properties.bare =
      (propertyEntries properties).map (List.map fun e => (e.1.bare, e.2.bare)) := by
    unfold propertyEntries
    have ht : properties.bare.truthy = properties.truthy := truthy_renumber properties
    have he : properties.bare.entries? = _ := entries?_renumber properties
    rw [ht, he]
    cases properties.truthy with
    | false => rfl
    | true => cases properties.entries? <;> rfl
  have shown : ∀ es, propertyEntries properties = .ok es → ∀ e ∈ es, e.2.ShownAlike look look' := by
    intro es hes
    unfold propertyEntries at hes
    split at hes
    · split at hes
      · rename_i he
        cases hes
        exact h.entries _ he
      · cases hes
    · cases hes
      exact nofun
  unfold declarations declarationItems
  rw [entries]
  cases hes : propertyEntries properties with
  | error e => rfl
  | ok es =>
    have key (items items' : List (Datum × Datum))
        (hi : ∀ e ∈ items', e.2.ShownAlike look look')
        (heq : items = items'.map fun e => (e.1.bare, e.2.bare)) :
        items.mapM (itemLine look) = items'.mapM (itemLine look') := by
      subst heq
      rw [List.mapM_map]
      exact mapM_congr fun item hm => itemLine_bare (hi item hm)
    show (List.mapM (itemLine look) _).bind _ = (List.mapM (itemLine look') _).bind _
    rw [key _ (es ++ keywords.entries.map fun e => (.text (keywordKey e.1), e.2))]
    · intro e he
      rcases List.mem_append.1 he with he | he
      · exact shown es hes e he
      · obtain ⟨x, hx, rfl⟩ := List.mem_map.1 he
        exact h.keywords x hx
    · rw [List.map_append, List.map_map]
      show _ ++ List.map _ (List.map _ keywords.entries) = _
      rw [List.map_map]
      rfl

theorem declarationsOf_eq {p p' : Datum} {keywords keywords' : Table Datum}
    (hp : p.bare = p'.bare) (hk : keywords.map bare = keywords'.map bare)
    (h : DeclaredAlike look look p keywords) (h' : DeclaredAlike look look' p' keywords') :
    declarationsOf look (some p) keywords = declarationsOf look' (some p') keywords' := by
  have hf : (keywords.find? propertiesParameter).map Datum.bare =
      (keywords'.find? propertiesParameter).map Datum.bare := by
    rw [← Table.find?_map, ← Table.find?_map, hk]
  unfold declarationsOf
  cases hs : keywords.find? propertiesParameter with
  | some d =>
    rw [hs] at hf
    obtain ⟨d', hs', -⟩ := Option.map_eq_some_iff.1 hf.symm
    rw [hs']
  | none =>
    rw [hs] at hf
    rw [Option.map_eq_none_iff.1 hf.symm]
    simp only
    rw [← declarations_bare h, hp, hk, declarations_bare h']

/-- Being the same names with values that are alike. -/
def AllAlike (named named' : List (String × Datum)) : Prop :=
  List.Forall₂ (fun e e' => e.1 = e'.1 ∧ e.2.Alike e'.2) named named'

theorem AllAlike.symm {named named' : List (String × Datum)} (h : AllAlike named named') :
    AllAlike named' named :=
  (List.Forall₂.imp (fun _ _ h => ⟨h.1.symm, h.2.symm⟩) h).flip

theorem AllAlike.detached {named named' : List (String × Datum)} (h : AllAlike named named') :
    ∀ e ∈ (Table.ofList named).entries, e.2.Detached := by
  intro e he
  replace he := (Table.mem_insertAll he).resolve_left nofun
  induction h with
  | nil => cases he
  | cons h _ ih =>
    rcases List.mem_cons.1 he with rfl | he
    · exact h.2.detached
    · exact ih he

theorem AllAlike.bare {named named' : List (String × Datum)} (h : AllAlike named named') :
    (Table.ofList named).map Datum.bare = (Table.ofList named').map Datum.bare := by
  rw [Table.map_ofList, Table.map_ofList]
  congr 1
  induction h with
  | nil => rfl
  | cons h _ ih => rw [List.map_cons, List.map_cons, h.1, h.2.bare, ih]

theorem declarationsOf_alike {p p' : Datum} {named named' : List (String × Datum)}
    (hp : p.Alike p') (hn : AllAlike named named') (look look' : Appearance) :
    declarationsOf look (some p) (.ofList named) =
      declarationsOf look' (some p') (.ofList named') :=
  declarationsOf_eq hp.bare hn.bare
    ⟨fun _ he e hm => (hp.detached.entries he e hm).shownAlike,
      fun e hm => (hn.detached e hm).shownAlike⟩
    ⟨fun _ he e hm => (hp.symm.detached.entries he e hm).shownAlike,
      fun e hm => (hn.symm.detached e hm).shownAlike⟩

/-! ### Telling -/

/-- Whether a value can be told does not depend on whether it stands by itself. -/
theorem told_agree_picture (views : Views) (d : Datum) : Agree (d.told views) (d.picture views) := by
  cases d with
  | answer fields => exact .ok _ _
  | _ => exact .refl _

theorem label_agree_of_bare (h : d.bare = d'.bare)
    (hn : ∀ n, .node n ∈ d'.identities → Agree (look.node n) (look'.node n)) :
    Agree (d.label look) (d'.label look') := by
  refine (label_agree d fun n _ => .refl (look.node n)).symm.trans (y := d.bare.label look) ?_
  rw [h]
  exact label_agree d' hn

theorem picture_agree_of_bare {views views' : Views} (hf : views.form = views'.form)
    (h : d.bare = d'.bare)
    (hn : ∀ n, .node n ∈ d'.identities → Agree (views.node n) (views'.node n)) :
    Agree (d.picture views) (d'.picture views') := by
  refine (picture_agree rfl d fun n _ => .refl (views.node n)).symm.trans
    (y := d.bare.picture views) ?_
  rw [h]
  exact picture_agree hf d' hn

theorem Alike.told {views views' : Views} (h : d.Alike d') (hf : views.form = views'.form) :
    Agree (d.told views) (d'.told views') :=
  (told_agree_picture views d).trans <|
    (picture_agree_of_bare hf h.bare fun n hn => absurd rfl (h.symm.detached _ hn n).2).trans
      (told_agree_picture views' d').symm

end Datum

namespace Store

variable {s s' : Store} {bound : NodeId} {hostName hostName' : HostId → String}

/-- The names and values of a scope can always be shown. -/
theorem exists_label_scope (r : RuleSet) (look : Appearance) :
    ∃ t, r.scopeDatum.label look = .ok t := by
  have entries (es : List (String × String)) : ∃ ts, Datum.entryLabels look
      (es.map fun e => (Datum.text e.1, Datum.text e.2)) = .ok ts := by
    induction es with
    | nil => exact ⟨_, rfl⟩
    | cons e rest ih =>
      obtain ⟨ts, hts⟩ := ih
      rw [List.map_cons, Datum.entryLabels, hts, Datum.label_text, Datum.label_text]
      exact ⟨_, rfl⟩
  obtain ⟨ts, hts⟩ := entries r.scope.entries
  unfold RuleSet.scopeDatum
  rw [Datum.label, hts]
  exact ⟨_, rfl⟩

theorem scope_agree (r r' : RuleSet) (look look' : Appearance) :
    Agree (r.scopeDatum.label look) (r'.scopeDatum.label look') := by
  obtain ⟨t, ht⟩ := exists_label_scope r look
  obtain ⟨t', ht'⟩ := exists_label_scope r' look'
  rw [ht, ht']
  exact .ok _ _

/-- Whether a rule set can be shown depends on the selectors up to it only, and not on their numbers.
-/
theorem label_agree (h : ∀ m < bound, (s.get m).selector.bare = (s'.get m).selector.bare)
    {n : NodeId} (hn : n < bound) : Agree (s.label hostName n) (s'.label hostName' n) := by
  induction n using Nat.strongRecOn with
  | ind n ih =>
    rw [label, label]
    unfold RuleSet.label
    refine Agree.bind (Datum.label_agree_of_bare (h n hn) fun m _ => ?_)
      fun _ _ => (scope_agree _ _ _ _).bind fun _ _ => .ok _ _
    by_cases hm : m < n
    · simp only [hm, dite_true]
      exact ih m hm (Nat.lt_trans hm hn)
    · simp only [hm, dite_false]
      exact .ok _ _

theorem picture_agree (h : ∀ m < bound, (s.get m).selector = (s'.get m).selector) {n : NodeId}
    (hn : n < bound) : Agree (s.picture hostName n) (s'.picture hostName' n) := by
  induction n using Nat.strongRecOn with
  | ind n ih =>
    rw [picture, picture]
    have hb := congrArg Datum.bare (h n hn)
    refine (Datum.picture_agree_of_bare (by rfl) hb fun m _ => ?_).map _ _
    by_cases hm : m < n
    · simp only [hm, dite_true]
      exact ih m hm (Nat.lt_trans hm hn)
    · simp only [hm, dite_false]
      exact .ok _ _

end Store

end RuleTree
