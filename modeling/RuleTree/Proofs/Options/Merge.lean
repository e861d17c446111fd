import RuleTree.Session.Build

/-!
# Merging options

* `OptionSet.setNamed`: the options of a list of named values set one after the other;
* `OptionSet.merge_optionsDatum`: named values are merged if all of the names are known;
* `OptionSet.known_of_merge`: and only then;
* `OptionSet.known`: the options that every tree has;
* `OptionSet.merge_known`, `OptionSet.merge_entries`: these, merged once more, are the same, and so
  are the options that a tree lists.
-/

namespace RuleTree

namespace OptionSet

/-- Set some options, one after the other. -/
def setNamed (o : OptionSet) (named : List (String × Datum)) : OptionSet :=
  named.foldl (fun o e => o.set e.1 e.2) o

theorem setAll_text (o : OptionSet) (named : List (String × Datum)) :
    o.setAll (named.map fun e => (.text e.1, e.2)) = o.setNamed named := by
  unfold setAll setNamed
  rw [List.foldl_map]

theorem mappingEntries_of_entries {origin : Datum} {entries : List (Datum × Datum)}
    (h : origin.entries? = some entries) : mappingEntries origin = .ok entries := by
  have hempty : origin.truthy = false → entries = [] := by
    cases origin <;> cases h
    · simp [Datum.truthy]
    · simp [Datum.truthy]
  unfold mappingEntries
  split
  · rw [h]
  · rename_i ht
    rw [hempty (Bool.not_eq_true _ ▸ ht)]

theorem mappingEntries_optionsDatum (options : Table Datum) :
    mappingEntries (Session.optionsDatum options) =
      .ok (options.entries.map fun e => (.text e.1, e.2)) := mappingEntries_of_entries rfl

theorem unknownKeys_text (named : List (String × Datum)) :
    unknownKeys (named.map fun e => (.text e.1, e.2)) =
      ((named.map Prod.fst).filter fun name => !knownNames.contains name).map .text := by
  unfold unknownKeys
  rw [List.map_map, List.filter_map, List.filter_map, List.map_map]
  rfl

/-- The names of keys that all are texts. -/
theorem mapM_text {f : Datum → Except Error String} (hf : ∀ name, f (.text name) = .ok name)
    (names : List String) : (names.map Datum.text).mapM f = .ok names := by
  induction names with
  | nil => rfl
  | cons name rest ih =>
    rw [List.map_cons, List.mapM_cons, hf, ih]
    rfl

theorem isEmpty_unknown_iff {options : Table Datum} :
    (options.keys.filter fun name => !knownNames.contains name).isEmpty = true ↔
      ∀ name ∈ options.keys, name ∈ knownNames := by
  rw [List.isEmpty_iff, List.filter_eq_nil_iff]
  simp

/-- Named values are merged if all of the names are known. -/
theorem merge_optionsDatum (options : Table Datum) :
    merge (Session.optionsDatum options) =
      if ∀ name ∈ options.keys, name ∈ knownNames then .ok (default.setNamed options.entries)
      else .error (.unknownOptions
        (sortNames (options.keys.filter fun name => !knownNames.contains name))) := by
  unfold merge
  simp only [mappingEntries_optionsDatum, unknownKeys_text, setAll_text, bind, Except.bind]
  rw [mapM_text fun _ => rfl]
  show (if (options.keys.filter _).isEmpty = true then Except.ok _ else _) = _
  by_cases hk : ∀ name ∈ options.keys, name ∈ knownNames
  · rw [if_pos (isEmpty_unknown_iff.2 hk), if_pos hk]
  · rw [if_neg (mt isEmpty_unknown_iff.1 hk), if_neg hk]
    rfl

variable {options : Table Datum} {o : OptionSet}

/-- What is merged has known names only. -/
theorem known_of_merge (h : merge (Session.optionsDatum options) = .ok o) {name : String}
    (hn : name ∈ options.keys) : name ∈ knownNames := by
  rw [merge_optionsDatum] at h
  split at h
  · rename_i hk
    exact hk name hn
  · cases h

theorem not_contains_of_merge (h : merge (Session.optionsDatum options) = .ok o) {name : String}
    (hn : name ∉ knownNames) : options.contains name = false := by
  rw [Bool.eq_false_iff, Ne, Table.contains_iff]
  exact fun hk => hn (known_of_merge h hk)

/-- The options that every tree has. -/
def known (o : OptionSet) : List (String × Datum) :=
  [(classNameName, o.className), (clearOnResetName, o.clearOnReset),
    (emitCustomPropertiesName, o.emitCustomProperties)]

/-- The options of a tree that has no further ones, in the order in which they are listed. -/
theorem entries_of_known (h : o.extra = .empty) : o.entries = o.known := by
  unfold entries
  rw [h]
  have h₁ : classNameName ≤ clearOnResetName := by decide +kernel
  have h₂ : classNameName ≤ emitCustomPropertiesName := by decide +kernel
  have h₃ : clearOnResetName ≤ emitCustomPropertiesName := by decide +kernel
  refine List.mergeSort_of_pairwise ?_
  simp [h₁, h₂, h₃]

/-- The known options of a tree without further ones, merged once more, are the same. -/
theorem merge_known (h : o.extra = .empty) :
    merge (Session.optionsDatum (.ofList o.known)) = .ok o := by
  have hkeys : ∀ name ∈ (Table.ofList o.known).keys, name ∈ knownNames := by
    show ∀ name ∈ [classNameName, clearOnResetName, emitCustomPropertiesName], name ∈ knownNames
    decide
  rw [merge_optionsDatum, if_pos hkeys]
  cases o
  cases h
  rfl

/-- The options that a tree without further ones lists, merged once more, are the same. -/
theorem merge_entries (h : o.extra = .empty) :
    merge (Session.optionsDatum (.ofList o.entries)) = .ok o := by
  rw [entries_of_known h]
  exact merge_known h

end OptionSet

end RuleTree
