import RuleTree.Table

/-!
# Tables entered into tables

* `Entries.mem_of_find?`: what is found is an entry;
* `Table.map`: a table with other values;
* `Table.mem_insertAll`: where the entries of a table come from;
* `Table.insertAll_insert`: entering the entries of a table that has grown;
* `Table.empty_insertAll`, `Table.contains_insertAll`: entering them in an empty table, and what is
  found then.
-/

namespace RuleTree

/-- What is found under a name is entered there. -/
theorem Entries.mem_of_find? {α : Type} {key : String} {value : α} {entries : List (String × α)}
    (h : find? key entries = some value) : (key, value) ∈ entries := by
  induction entries with
  | nil => cases h
  | cons e rest ih =>
    obtain ⟨k, v⟩ := e
    rw [find?] at h
    split at h
    · rename_i hk
      cases h
      rw [hk]
      exact List.mem_cons_self
    · exact List.mem_cons_of_mem _ (ih h)

namespace Table

variable {α β : Type}

/-- A table with other values. -/
def map (f : α → β) (t : Table α) : Table β :=
  ⟨t.entries.map fun e => (e.1, f e.2), by
    rw [List.map_map]
    exact t.nodup⟩

theorem find?_map (f : α → β) (t : Table α) (key : String) :
    (t.map f).find? key = (t.find? key).map f := by
  unfold find? map
  simp only
  induction t.entries with
  | nil => rfl
  | cons e rest ih =>
    obtain ⟨k, v⟩ := e
    by_cases h : k = key
    · simp [Entries.find?, h]
    · simpa [Entries.find?, h] using ih

theorem map_insert (f : α → β) (t : Table α) (key : String) (value : α) :
    (t.insert key value).map f = (t.map f).insert key (f value) := by
  apply ext
  show (Entries.insert key value t.entries).map _ = Entries.insert key (f value) (t.entries.map _)
  induction t.entries with
  | nil => rfl
  | cons e rest ih =>
    obtain ⟨k, v⟩ := e
    by_cases h : k = key
    · simp [Entries.insert, h]
    · simpa [Entries.insert, h] using ih

theorem map_insertAll (f : α → β) (t : Table α) (pairs : List (String × α)) :
    (t.insertAll pairs).map f = (t.map f).insertAll (pairs.map fun e => (e.1, f e.2)) := by
  unfold insertAll
  induction pairs generalizing t with
  | nil => rfl
  | cons p rest ih =>
    rw [List.foldl_cons, ih, map_insert]
    rfl

theorem map_ofList (f : α → β) (pairs : List (String × α)) :
    (ofList pairs).map f = ofList (pairs.map fun e => (e.1, f e.2)) := map_insertAll f empty pairs

/-- What is entered is one of the values given. -/
theorem mem_insertAll {t : Table α} {pairs : List (String × α)} {e : String × α}
    (h : e ∈ (t.insertAll pairs).entries) : e ∈ t.entries ∨ e ∈ pairs := by
  have insert {t : Table α} {p e : String × α} (h : e ∈ (t.insert p.1 p.2).entries) :
      e ∈ t.entries ∨ e = p := by
    revert h
    show e ∈ Entries.insert p.1 p.2 t.entries → _
    induction t.entries with
    | nil => exact fun h => .inr (List.mem_singleton.1 h)
    | cons x rest ih =>
      obtain ⟨k, v⟩ := x
      unfold Entries.insert
      split
      · rintro h
        rcases List.mem_cons.1 h with h | h
        · exact .inr h
        · exact .inl (List.mem_cons_of_mem _ h)
      · rintro h
        rcases List.mem_cons.1 h with h | h
        · exact .inl (h ▸ List.mem_cons_self)
        · exact (ih h).imp (List.mem_cons_of_mem _) id
  unfold insertAll at h
  induction pairs generalizing t with
  | nil => exact .inl h
  | cons p rest ih =>
    rcases ih h with h | h
    · rcases insert h with h | rfl
      · exact .inl h
      · exact .inr List.mem_cons_self
    · exact .inr (List.mem_cons_of_mem _ h)

theorem insert_insert_self (t : Table α) (key : String) (v w : α) :
    (t.insert key v).insert key w = t.insert key w := by
  apply ext
  show Entries.insert key w (Entries.insert key v t.entries) = Entries.insert key w t.entries
  induction t.entries with
  | nil => simp [Entries.insert]
  | cons e rest ih =>
    obtain ⟨k, u⟩ := e
    by_cases h : k = key
    · simp [Entries.insert, h]
    · simpa [Entries.insert, h] using ih

/-- A value that is replaced stays in its place, whatever else is entered. -/
theorem insert_comm_of_mem {t : Table α} {key : String} (h : key ∈ t.keys) {k : String}
    (hk : k ≠ key) (v w : α) : (t.insert k w).insert key v = (t.insert key v).insert k w := by
  apply ext
  show Entries.insert key v (Entries.insert k w t.entries) =
    Entries.insert k w (Entries.insert key v t.entries)
  revert h
  show key ∈ t.entries.map Prod.fst → _
  have hk' : ¬ key = k := fun e => hk e.symm
  induction t.entries with
  | nil => simp
  | cons e rest ih =>
    obtain ⟨j, u⟩ := e
    intro h
    by_cases h₁ : j = key
    · simp [Entries.insert, h₁, hk']
    · have hm : key ∈ rest.map Prod.fst := by
        rcases List.mem_cons.1 h with h | h
        · exact absurd h.symm h₁
        · exact h
      by_cases h₂ : j = k
      · simp [Entries.insert, h₂, hk]
      · simpa [Entries.insert, h₁, h₂] using ih hm

/-- To enter a value in the pairs that are entered is to enter it at the end. -/
theorem insertAll_insert (t u : Table α) (key : String) (v : α) :
    t.insertAll (u.insert key v).entries = (t.insertAll u.entries).insert key v := by
  -- what is there already can as well be replaced before others are entered
  have later (rest : List (String × α)) (hr : key ∉ rest.map Prod.fst) (t : Table α)
      (ht : key ∈ t.keys) : (t.insertAll rest).insert key v = (t.insert key v).insertAll rest := by
    induction rest generalizing t with
    | nil => rfl
    | cons e rest ih =>
      obtain ⟨k, w⟩ := e
      have hne : k ≠ key := fun he => hr (he ▸ List.mem_cons_self)
      show (((t.insert k w).insertAll rest).insert key v) =
        ((t.insert key v).insert k w).insertAll rest
      rw [ih (fun h => hr (List.mem_cons_of_mem _ h)), insert_comm_of_mem ht hne]
      rw [keys_insert]
      split
      · exact ht
      · exact List.mem_append_left _ ht
  have hd := u.nodup
  revert hd
  show (u.entries.map Prod.fst).Nodup → t.insertAll (Entries.insert key v u.entries) = _
  generalize u.entries = entries
  intro hd
  induction entries generalizing t with
  | nil => rfl
  | cons e rest ih =>
    obtain ⟨k, w⟩ := e
    obtain ⟨hk, hd⟩ := List.nodup_cons.1 hd
    unfold Entries.insert
    split
    · rename_i he
      cases he
      show (t.insert key v).insertAll rest = ((t.insert key w).insertAll rest).insert key v
      rw [later rest hk, insert_insert_self]
      rw [keys_insert]
      split
      · assumption
      · exact List.mem_append_right _ List.mem_cons_self
    · exact ih (t.insert k w) hd

/-- The entries of a table, entered one after the other, are the table. -/
theorem empty_insertAll (t : Table α) : empty.insertAll t.entries = t := by
  have key (before rest : List (String × α)) (hd : ((before ++ rest).map Prod.fst).Nodup)
      (u : Table α) (hu : u.entries = before) : (u.insertAll rest).entries = before ++ rest := by
    induction rest generalizing before u with
    | nil => rw [List.append_nil]; exact hu
    | cons e rest ih =>
      have hd' : ((before ++ [e] ++ rest).map Prod.fst).Nodup := by simpa using hd
      have hi : (u.insert e.1 e.2).entries = before ++ [e] := by
        show Entries.insert e.1 e.2 u.entries = _
        rw [hu]
        have hn : e.1 ∉ before.map Prod.fst := by
          intro hm
          rw [List.map_append, List.nodup_append] at hd
          exact hd.2.2 _ hm _ List.mem_cons_self rfl
        clear ih hd hd' hu
        induction before with
        | nil => rfl
        | cons x xs ih =>
          obtain ⟨k, w⟩ := x
          have hk : ¬ k = e.1 := fun he => hn (he ▸ List.mem_cons_self)
          rw [List.cons_append, Entries.insert, if_neg hk,
            ih fun h => hn (List.mem_cons_of_mem _ h)]
      rw [List.append_cons before e rest]
      exact ih (before ++ [e]) hd' (u.insert e.1 e.2) hi
  exact ext (key [] t.entries t.nodup empty rfl)

theorem mem_keys_insertAll (t : Table α) (pairs : List (String × α)) (key : String) :
    key ∈ (t.insertAll pairs).keys ↔ key ∈ t.keys ∨ key ∈ pairs.map Prod.fst := by
  induction pairs generalizing t with
  | nil => simp [insertAll]
  | cons e rest ih =>
    show key ∈ ((t.insert e.1 e.2).insertAll rest).keys ↔ _
    rw [ih, keys_insert, List.map_cons, List.mem_cons]
    split
    · rename_i hm
      constructor
      · exact fun h => h.imp_right .inr
      · rintro (h | rfl | h)
        · exact .inl h
        · exact .inl hm
        · exact .inr h
    · rw [List.mem_append, List.mem_singleton, or_assoc]

/-- What is found after entering a table was there before or is in the table. -/
theorem contains_insertAll (t u : Table α) (key : String) :
    (t.insertAll u.entries).contains key = (t.contains key || u.contains key) := by
  rw [Bool.eq_iff_iff, Bool.or_eq_true, contains_iff, contains_iff, contains_iff,
    mem_keys_insertAll]
  rfl

end Table

end RuleTree
