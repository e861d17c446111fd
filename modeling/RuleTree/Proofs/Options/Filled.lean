import RuleTree.Proofs.Options.Merge

/-!
# Options filled in

What merging makes of a dictionary of options, and that it can be done in a copy.

* `pairwise_sortNames`: sorted names that are told apart increase;
* `Datum.Lists`: the dictionaries with the entries of a table;
* `OptionSet.merge_of_lists`: these are merged like named values;
* `Dictionaries.run_complete`, `Dictionaries.run_fillIn`: filling in makes a copy and changes nothing
  else;
* `OptionSet.Filled`, `OptionSet.Merges`: what comes of known options, and of all options.
-/

namespace RuleTree

/-! ### Names in order -/

section Sorted

variable {names : List String}

theorem mem_sortNames {name : String} : name ∈ sortNames names ↔ name ∈ names :=
  List.mem_mergeSort

/-- Sorted names that are told apart increase. -/
theorem pairwise_sortNames (h : names.Nodup) : (sortNames names).Pairwise (· < ·) := by
  have hle : (sortNames names).Pairwise fun a b => decide (a ≤ b) = true := by
    refine List.pairwise_mergeSort (fun a b c hab hbc => ?_) (fun a b => ?_) names
    · exact decide_eq_true (String.le_trans (of_decide_eq_true hab) (of_decide_eq_true hbc))
    · rw [Bool.or_eq_true, decide_eq_true_iff, decide_eq_true_iff]
      exact String.le_total a b
  have hne : (sortNames names).Nodup := (List.mergeSort_perm names _).nodup_iff.2 h
  refine hle.imp₂ (fun a b hab hn => ?_) hne
  exact String.not_le.1 fun hba => hn (String.le_antisymm (of_decide_eq_true hab) hba)

end Sorted

/-- Whether a value is a dictionary with the entries of a table. -/
def Datum.Lists (d : Datum) (named : Table Datum) : Prop :=
  d.entries? = some (named.entries.map fun e => (.text e.1, e.2))

namespace OptionSet

variable {o : OptionSet} {named : Table Datum} {origin : Datum}

/-- All dictionaries with the entries of a table are merged alike. -/
theorem merge_of_lists (h : origin.Lists named) :
    merge origin = merge (Session.optionsDatum named) := by
  unfold merge
  rw [mappingEntries_of_entries h, mappingEntries_optionsDatum]

/-- The value of an option after others have been set. -/
theorem get?_setNamed {entries : List (String × Datum)} (h : (entries.map Prod.fst).Nodup)
    (o : OptionSet) (name : String) :
    (o.setNamed entries).get? name = (Entries.find? name entries).or (o.get? name) := by
  induction entries generalizing o with
  | nil => rfl
  | cons e rest ih =>
    obtain ⟨k, v⟩ := e
    obtain ⟨hk, hr⟩ := List.nodup_cons.1 h
    show ((o.set k v).setNamed rest).get? name = _
    rw [ih hr, get?_set, Entries.find?]
    by_cases hn : k = name
    · subst hn
      rw [if_pos rfl, if_pos rfl, (Entries.find?_eq_none_iff k rest).2 hk]
      rfl
    · rw [if_neg (Ne.symm hn), if_neg hn]

theorem extra_set {name : String} (h : name ∈ knownNames) (value : Datum) :
    (o.set name value).extra = o.extra := by
  rcases List.mem_cons.1 h with rfl | h
  · rfl
  rcases List.mem_cons.1 h with rfl | h
  · rfl
  · rw [List.mem_singleton.1 h]
    rfl

/-- Known options are set without any further ones. -/
theorem extra_setNamed {entries : List (String × Datum)}
    (h : ∀ name ∈ entries.map Prod.fst, name ∈ knownNames) (o : OptionSet) :
    (o.setNamed entries).extra = o.extra := by
  induction entries generalizing o with
  | nil => rfl
  | cons e rest ih =>
    show ((o.set e.1 e.2).setNamed rest).extra = o.extra
    rw [ih fun name hn => h name (List.mem_cons_of_mem _ hn), extra_set (h e.1 List.mem_cons_self)]

/-- Without further ones, only known options have values. -/
theorem known_of_get? (ho : o.extra = .empty) {name : String} (h : (o.get? name).isSome) :
    name ∈ knownNames := by
  refine Decidable.byContradiction fun hn => ?_
  simp only [knownNames, List.mem_cons, List.not_mem_nil, or_false, not_or] at hn
  rw [get?, if_neg hn.1, if_neg hn.2.1, if_neg hn.2.2, ho] at h
  cases h

/-- Options without further ones are the same if they have the same values. -/
theorem eq_of_get? {o' : OptionSet} (ho : o.extra = .empty) (ho' : o'.extra = .empty)
    (h : ∀ name, o.get? name = o'.get? name) : o = o' := by
  have h₁ : o.clearOnReset = o'.clearOnReset := Option.some.inj (h clearOnResetName)
  have h₂ : o.emitCustomProperties = o'.emitCustomProperties :=
    Option.some.inj (h emitCustomPropertiesName)
  have h₃ : o.className = o'.className := Option.some.inj (h classNameName)
  cases o
  cases o'
  simp_all

theorem find?_defaults (name : String) : defaults.find? name = default.get? name := by
  show Entries.find? name [(clearOnResetName, default.clearOnReset),
    (emitCustomPropertiesName, default.emitCustomProperties),
    (classNameName, default.className)] = _
  simp only [Entries.find?, get?, eq_comm (b := name)]
  rfl

theorem contains_defaults (name : String) : defaults.contains name = knownNames.contains name := by
  rw [Bool.eq_iff_iff, Table.contains_iff, List.contains_iff_mem]
  rfl

end OptionSet

/-! ### In a copy -/

/-- A table with the entries of a list where it has none of that name. -/
def Table.fill (t : Table Datum) (entries : List (String × Datum)) : Table Datum :=
  entries.foldl (fun t e => t.insert e.1 ((t.find? e.1).getD e.2)) t

theorem Table.find?_fill (t : Table Datum) (entries : List (String × Datum)) (name : String) :
    (t.fill entries).find? name = (t.find? name).or (Entries.find? name entries) := by
  induction entries generalizing t with
  | nil => exact Option.or_none.symm
  | cons e rest ih =>
    show ((t.insert e.1 ((t.find? e.1).getD e.2)).fill rest).find? name = _
    rw [ih, find?_insert, Entries.find?]
    by_cases hn : e.1 = name
    · subst hn
      rw [if_pos rfl, if_pos rfl]
      cases t.find? e.1 <;> rfl
    · rw [if_neg (Ne.symm hn), if_neg hn]

namespace Dictionaries

variable {s : Dictionaries} {t known named : Table Datum} {origin defaults : Nat}

theorem getD_eq (h : s[origin]? = some t) : s.getD origin .empty = t := by
  rw [Array.getD_eq_getD_getElem?, h]
  rfl

/-- What is there stays as it is when a dictionary is made. -/
theorem getElem?_push_old (h : s[origin]? = some t) (own : Table Datum) :
    (s.push own)[origin]? = some t := by
  obtain ⟨ho, -⟩ := Array.getElem?_eq_some_iff.1 h
  rw [Array.getElem?_push, if_neg (Nat.ne_of_lt ho), h]

theorem getD_push_size : (s.push t).getD s.size .empty = t := by
  rw [Array.getD_eq_getD_getElem?, Array.getElem?_push_size]
  rfl

theorem modify_push (f : Table Datum → Table Datum) :
    (s.push t).modify s.size f = s.push (f t) := by
  refine Array.ext (by simp) fun i hi hi' => ?_
  rw [Array.getElem_modify, Array.getElem_push, Array.getElem_push]
  by_cases h : i < s.size
  · rw [if_neg (Nat.ne_of_gt h), dif_pos h, dif_pos h]
  · have hs : s.size = i := by
      rw [Array.size_push] at hi'
      omega
    rw [if_pos hs, dif_neg h, dif_neg h]

theorem run_supply (e : String × Datum) :
    (supply s.size e).run.run (s.push t) =
      (.ok (), s.push (t.insert e.1 ((t.find? e.1).getD e.2))) := by
  show (Except.ok (), (s.push t).modify s.size fun u =>
    u.insert e.1 ((((s.push t).getD s.size .empty).find? e.1).getD e.2)) = _
  rw [getD_push_size, modify_push]

theorem run_bind {α β : Type} {x : Steps α} {f : α → Steps β} {a : α} {s s' : Dictionaries}
    (h : x.run.run s = (.ok a, s')) : (x >>= f).run.run s = (f a).run.run s' := by
  show (ExceptT.bindCont f (x.run.run s).1).run (x.run.run s).2 = _
  rw [h]
  rfl

/-- Supplying the copy changes the copy only. -/
theorem run_forM_supply (entries : List (String × Datum)) (t : Table Datum) :
    (entries.forM (supply s.size)).run.run (s.push t) = (.ok (), s.push (t.fill entries)) := by
  induction entries generalizing t with
  | nil => rfl
  | cons e rest ih => exact (run_bind (run_supply e)).trans (ih _)

/-- Completing the copy, with whatever result, changes the copy only. -/
theorem run_complete : (complete s.size named known).run.run (s.push named) =
    if (named.keys.filter fun name => !known.contains name).isEmpty then
      (.ok s.size, s.push (named.fill known.entries))
    else (.error (.unknownOptions
      (sortNames (named.keys.filter fun name => !known.contains name))), s.push named) := by
  unfold complete
  simp only
  split
  · exact run_bind (run_forM_supply known.entries named)
  · rfl

/-- All that there is in addition is the copy. -/
theorem run_fillIn (ho : s[origin]? = some named) (hd : s[defaults]? = some known) :
    (fillIn origin defaults).run.run s = (complete s.size named known).run.run (s.push named) := by
  have hknown : (s.push named).getD defaults .empty = known :=
    getD_eq (getElem?_push_old hd named)
  show (complete s.size ((s.push (s.getD origin .empty)).getD s.size .empty)
    ((s.push (s.getD origin .empty)).getD defaults .empty)).run.run
      (s.push (s.getD origin .empty)) = _
  rw [getD_push_size, getD_eq ho, hknown]

end Dictionaries

/-! ### What comes of merging -/

namespace OptionSet

variable {named : Table Datum} {origin : Datum}

/-- The options that come of named values, all of them known. -/
structure Filled (named : Table Datum) (o : OptionSet) : Prop where
  /-- The names are the known ones. -/
  names : o.names.Perm knownNames
  /-- Each comes with its value. -/
  listed : ∀ e ∈ o.entries, o.get? e.1 = some e.2
  /-- A value that is supplied is taken, whatever it is. -/
  supplied : ∀ name value, named.find? name = some value → o.get? name = some value
  /-- An option that is not supplied has its default. -/
  unsupplied : ∀ name, named.find? name = none → o.get? name = default.get? name
  /-- Merging what comes of merging changes nothing. -/
  again : ∀ (t : Table Datum) (result : Datum), (∀ name, t.find? name = o.get? name) →
    result.Lists t → merge result = .ok o

/-- How filling in a copy of a dictionary goes, among dictionaries that can be changed. -/
structure Copied (merged : Except Error OptionSet) (s : Dictionaries) (caller known : Nat)
    (result : Except Error Nat) (s' : Dictionaries) (own : Table Datum) : Prop where
  /-- The copy is new, and all other dictionaries are there as before. -/
  copy : s' = s.push own
  /-- The dictionary of the caller is there as before. -/
  caller : s'[caller]? = s[caller]?
  /-- The dictionary of the defaults is there as before. -/
  known : s'[known]? = s[known]?
  /-- What is refused is what merging refuses. -/
  refused : ∀ e, merged = .error e → result = .error e
  /-- What is given is the copy, with the options that merging gives. -/
  given : ∀ o, merged = .ok o → result = .ok s.size ∧ ∀ name, own.find? name = o.get? name

/-- What comes of merging a dictionary with the entries of a table. -/
structure Merges (named : Table Datum) (origin : Datum) : Prop where
  /-- Known names are given, with the supplied values. -/
  known : (∀ name ∈ named.keys, name ∈ knownNames) → ∃ o, merge origin = .ok o ∧ Filled named o
  /-- Unknown names are refused, all of them, each once and in code point order. -/
  unknown : (∃ name ∈ named.keys, name ∉ knownNames) →
    ∃ names, merge origin = .error (.unknownOptions names) ∧ names.Pairwise (· < ·) ∧
      ∀ name, name ∈ names ↔ name ∈ named.keys ∧ name ∉ knownNames
  /-- Merging can be done in a copy, which leaves the dictionary and the defaults as they are. -/
  copied : ∀ (s : Dictionaries) (caller known : Nat), s[caller]? = some named →
    s[known]? = some defaults →
      ∃ own, Copied (merge origin) s caller known
        ((Dictionaries.fillIn caller known).run.run s).1
        ((Dictionaries.fillIn caller known).run.run s).2 own

theorem get?_merged (named : Table Datum) (name : String) :
    (default.setNamed named.entries).get? name = (named.find? name).or (default.get? name) :=
  get?_setNamed named.nodup default name

theorem filled (h : ∀ name ∈ named.keys, name ∈ knownNames) :
    Filled named (default.setNamed named.entries) where
  names := by
    have hx : (default.setNamed named.entries).extra = .empty := extra_setNamed h default
    rw [OptionSet.names, entries_of_known hx]
    show [classNameName, clearOnResetName, emitCustomPropertiesName].Perm knownNames
    decide
  listed e he := by
    have hx : (default.setNamed named.entries).extra = .empty := extra_setNamed h default
    rw [entries_of_known hx] at he
    simp only [OptionSet.known, List.mem_cons, List.not_mem_nil, or_false] at he
    rcases he with rfl | rfl | rfl <;> rfl
  supplied name value hv := by
    rw [get?_merged, hv]
    rfl
  unsupplied name hn := by
    rw [get?_merged, hn]
    rfl
  again t result ht hr := by
    have hx : (default.setNamed named.entries).extra = .empty := extra_setNamed h default
    have hk : ∀ name ∈ t.keys, name ∈ knownNames := by
      intro name hn
      rw [← Table.contains_iff, Table.contains, ht] at hn
      exact known_of_get? hx hn
    rw [merge_of_lists hr, merge_optionsDatum, if_pos hk]
    refine congrArg _ (eq_of_get? (extra_setNamed hk default) hx fun name => ?_)
    rw [get?_merged, ht, get?_merged, Option.or_assoc, Option.or_self]

theorem copied (h : origin.Lists named) {s : Dictionaries} {caller known : Nat}
    (hc : s[caller]? = some named) (hd : s[known]? = some defaults) :
    ∃ own, Copied (merge origin) s caller known
      ((Dictionaries.fillIn caller known).run.run s).1
      ((Dictionaries.fillIn caller known).run.run s).2 own := by
  have hm := (merge_of_lists h).trans (merge_optionsDatum named)
  have hr := (Dictionaries.run_fillIn hc hd).trans Dictionaries.run_complete
  simp only [contains_defaults] at hr
  have old (own : Table Datum) : (s.push own)[caller]? = s[caller]? ∧
      (s.push own)[known]? = s[known]? :=
    ⟨(Dictionaries.getElem?_push_old hc own).trans hc.symm,
      (Dictionaries.getElem?_push_old hd own).trans hd.symm⟩
  by_cases hk : ∀ name ∈ named.keys, name ∈ knownNames
  · rw [if_pos (isEmpty_unknown_iff.2 hk)] at hr
    rw [if_pos hk] at hm
    rw [hr, hm]
    refine ⟨_, rfl, (old _).1, (old _).2, nofun, ?_⟩
    rintro _ ⟨⟩
    refine ⟨rfl, fun name => ?_⟩
    rw [Table.find?_fill, get?_merged]
    exact congrArg _ (find?_defaults name)
  · rw [if_neg (mt isEmpty_unknown_iff.1 hk)] at hr
    rw [if_neg hk] at hm
    rw [hr, hm]
    refine ⟨_, rfl, (old _).1, (old _).2, ?_, nofun⟩
    rintro _ ⟨⟩
    rfl

theorem merges (h : origin.Lists named) : Merges named origin where
  known hk :=
    ⟨_, (merge_of_lists h).trans ((merge_optionsDatum named).trans (if_pos hk)), filled hk⟩
  unknown := by
    rintro ⟨name, hn, hu⟩
    have hk : ¬ ∀ name ∈ named.keys, name ∈ knownNames := fun hk => hu (hk name hn)
    refine ⟨_, (merge_of_lists h).trans ((merge_optionsDatum named).trans (if_neg hk)), ?_, ?_⟩
    · exact pairwise_sortNames (named.nodup.sublist List.filter_sublist)
    · intro name
      rw [mem_sortNames, List.mem_filter]
      simp
  copied _ _ _ := copied h

/-- Two known names are filled in, one of them with a value that is not set; and of four names those
two that are not known are refused. -/
theorem merges_several :
    ((Datum.dict [(.text classNameName, .null), (.text clearOnResetName, .bool true)]).Lists
        (.ofList [(classNameName, .null), (clearOnResetName, .bool true)]) ∧
      Merges (.ofList [(classNameName, .null), (clearOnResetName, .bool true)])
        (.dict [(.text classNameName, .null), (.text clearOnResetName, .bool true)])) ∧
    (Datum.dict [(.text "width", .int 80), (.text classNameName, .null), (.text "indent", .int 2),
        (.text clearOnResetName, .bool true)]).Lists
      (.ofList [("width", .int 80), (classNameName, .null), ("indent", .int 2),
        (clearOnResetName, .bool true)]) ∧
    Merges
      (.ofList [("width", .int 80), (classNameName, .null), ("indent", .int 2),
        (clearOnResetName, .bool true)])
      (.dict [(.text "width", .int 80), (.text classNameName, .null), (.text "indent", .int 2),
        (.text clearOnResetName, .bool true)]) :=
  ⟨⟨rfl, merges rfl⟩, rfl, merges rfl⟩

end OptionSet

end RuleTree
