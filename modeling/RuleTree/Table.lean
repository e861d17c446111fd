/-!
# Ordered tables

Tables from names to values that remember the order in which the names were first entered.

* `Table`: a list of entries in which no name occurs twice;
* `Table.find?`, `Table.insert`, `Table.erase`, `Table.ofList`;
* what each operation does to `find?` and to the order of the keys.

Entering a name again replaces its value and leaves its place unchanged.
-/

namespace RuleTree

namespace Entries

variable {α : Type}

/-- Enter `value` under `key`: in the place of the key if it is there, else at the end. -/
def insert (key : String) (value : α) : List (String × α) → List (String × α)
  | [] => [(key, value)]
  | (k, v) :: rest => if k = key then (key, value) :: rest else (k, v) :: insert key value rest

/-- The value entered under `key`. -/
def find? (key : String) : List (String × α) → Option α
  | [] => none
  | (k, v) :: rest => if k = key then some v else find? key rest

theorem map_fst_insert (key : String) (value : α) (entries : List (String × α)) :
    (insert key value entries).map Prod.fst =
      if key ∈ entries.map Prod.fst then entries.map Prod.fst
      else entries.map Prod.fst ++ [key] := by
  induction entries with
  | nil => simp [insert]
  | cons e rest ih =>
    obtain ⟨k, v⟩ := e
    by_cases h : k = key
    · simp [insert, h]
    · have h' : ¬ key = k := fun e => h e.symm
      by_cases hm : key ∈ rest.map Prod.fst
      · rw [if_pos hm] at ih
        rw [insert, if_neg h, List.map_cons, ih, List.map_cons, if_pos (List.mem_cons_of_mem _ hm)]
      · rw [if_neg hm] at ih
        rw [insert, if_neg h, List.map_cons, ih, List.map_cons, if_neg]
        · rfl
        · simpa [h'] using hm

theorem nodup_insert (key : String) (value : α) {entries : List (String × α)}
    (h : (entries.map Prod.fst).Nodup) : ((insert key value entries).map Prod.fst).Nodup := by
  rw [map_fst_insert]
  split
  · exact h
  · rename_i hm
    rw [List.nodup_append]
    exact ⟨h, by simp, fun a ha b hb => by
      rw [List.mem_singleton] at hb
      exact fun e => hm (hb ▸ e ▸ ha)⟩

theorem find?_insert (key : String) (value : α) (entries : List (String × α)) (k : String) :
    find? k (insert key value entries) = if k = key then some value else find? k entries := by
  induction entries with
  | nil =>
    by_cases h : k = key
    · simp [insert, find?, h]
    · have h' : ¬ key = k := fun e => h e.symm
      simp [insert, find?, h, h']
  | cons e rest ih =>
    obtain ⟨k', v⟩ := e
    by_cases h : k' = key
    · by_cases hk : k = key
      · simp [insert, find?, h, hk]
      · have hk' : ¬ key = k := fun e => hk e.symm
        simp [insert, find?, h, hk, hk']
    · by_cases hk : k' = k
      · have : ¬ k = key := fun e => h (hk.trans e)
        simp [insert, find?, hk, this]
      · simp [insert, find?, h, hk, ih]

theorem find?_eq_none_iff (key : String) (entries : List (String × α)) :
    find? key entries = none ↔ key ∉ entries.map Prod.fst := by
  induction entries with
  | nil => simp [find?]
  | cons e rest ih =>
    obtain ⟨k, v⟩ := e
    by_cases h : k = key
    · simp [find?, h]
    · have h' : ¬ key = k := fun e => h e.symm
      simp [find?, h, h', ih]

end Entries

/-- A table from names to values, in the order in which the names were first entered. -/
structure Table (α : Type) where
  entries : List (String × α)
  nodup : (entries.map Prod.fst).Nodup

namespace Table

variable {α : Type}

/-- The table without entries. -/
def empty : Table α := ⟨[], List.nodup_nil⟩

instance : Inhabited (Table α) := ⟨empty⟩

/-- The names of a table in order of first entry. -/
def keys (t : Table α) : List String := t.entries.map Prod.fst

/-- The value entered under `key`. -/
def find? (t : Table α) (key : String) : Option α := Entries.find? key t.entries

/-- Whether something is entered under `key`. -/
def contains (t : Table α) (key : String) : Bool := (t.find? key).isSome

/-- Enter a value, in place if the name is known and at the end if it is new. -/
def insert (t : Table α) (key : String) (value : α) : Table α :=
  ⟨Entries.insert key value t.entries, Entries.nodup_insert key value t.nodup⟩

/-- Forget a name. -/
def erase (t : Table α) (key : String) : Table α :=
  ⟨t.entries.filter (fun e => e.1 ≠ key), t.nodup.sublist (List.filter_sublist.map _)⟩

/-- Enter pairs one after the other. -/
def insertAll (t : Table α) (pairs : List (String × α)) : Table α :=
  pairs.foldl (fun t p => t.insert p.1 p.2) t

/-- The table of a list of pairs: a repeated name keeps its first place and its last value. -/
def ofList (pairs : List (String × α)) : Table α := empty.insertAll pairs

/-- The values of a table in order. -/
def values (t : Table α) : List α := t.entries.map Prod.snd

@[ext] theorem ext {s t : Table α} (h : s.entries = t.entries) : s = t := by
  cases s; cases t; cases h; rfl

@[simp] theorem entries_empty : (empty : Table α).entries = [] := rfl

@[simp] theorem find?_empty (key : String) : (empty : Table α).find? key = none := rfl

theorem find?_insert (t : Table α) (key : String) (value : α) (k : String) :
    (t.insert key value).find? k = if k = key then some value else t.find? k :=
  Entries.find?_insert key value t.entries k

@[simp] theorem find?_insert_self (t : Table α) (key : String) (value : α) :
    (t.insert key value).find? key = some value := by
  simp [find?_insert]

theorem keys_insert (t : Table α) (key : String) (value : α) :
    (t.insert key value).keys = if key ∈ t.keys then t.keys else t.keys ++ [key] :=
  Entries.map_fst_insert key value t.entries

theorem contains_iff (t : Table α) (key : String) : t.contains key = true ↔ key ∈ t.keys := by
  have h := Entries.find?_eq_none_iff key t.entries
  unfold contains find? keys
  cases hf : Entries.find? key t.entries with
  | none => simpa using h.1 hf
  | some v =>
    simp only [Option.isSome_some, true_iff]
    exact Decidable.byContradiction fun hn => by simp [h.2 hn] at hf

theorem find?_of_not_contains {t : Table α} {key : String} (h : t.contains key = false) :
    t.find? key = none := Option.not_isSome_iff_eq_none.1 (Bool.eq_false_iff.1 h)

/-- What is not there need not be forgotten. -/
theorem erase_of_not_contains {t : Table α} {key : String} (h : t.contains key = false) :
    t.erase key = t := by
  refine ext (List.filter_eq_self.2 fun e he => ?_)
  rw [decide_eq_true_eq]
  rintro rfl
  rw [(t.contains_iff _).2 (List.mem_map_of_mem he)] at h
  cases h

end Table

end RuleTree
