import RuleTree.Proofs.Calls.Amends
import RuleTree.Proofs.Rebuilding.Alike
import RuleTree.Proofs.Sheets.Filing

/-!
# What was made

* `Session.Earlier`: a session and a later one of the same script, in which everything is still
  there;
* `Session.Announced`: rule sets that were made and that the log, if one is kept, can show;
* `Session.Has`, `Session.Covers`: what was made so far and can be referred to;
* `Session.Told`: what is named in a session, or was made since;
* `Session.Eval.Tells`: a computation whose values refer to nothing else;
* `Session.tells_eval`, `Session.tells_className`, `Session.tells_evalAction`: the computations of
  statements are such ones;
* `Session.NamesMade`, `Session.NamesMade.covers`: if what is named was made, then so was what is
  worked out;
* `Datum.mem_of_plus`, `OptionSet.mem_links_of_merge`: what is put together refers to what its parts
  refer to.
-/

namespace RuleTree

namespace Datum

variable {i : Identity}

/-- What is appended together refers to what both parts refer to. -/
theorem mem_of_plus {stamp : Stamp} {a b d : Datum} (h : plus stamp a b = .ok d)
    (hi : i ∈ d.identities) : i ∈ a.identities ∨ i ∈ b.identities := by
  unfold plus at h
  split at h
  · cases h
    cases hi
  · cases h
    rw [identities, itemIdentities_eq_flatMap, List.flatMap_append] at hi
    rw [identities, identities, itemIdentities_eq_flatMap, itemIdentities_eq_flatMap]
    exact List.mem_append.1 hi
  · cases h
    rw [identities, List.map_append] at hi
    exact List.mem_append.1 hi
  · split at h
    · cases h
      cases hi
    · split at h
      · cases hx : a.toDouble with
        | error e => rw [hx] at h; cases h
        | ok x =>
          cases hy : b.toDouble with
          | error e => rw [hx, hy] at h; cases h
          | ok y =>
            rw [hx, hy] at h
            cases h
            cases hi
      · cases h

theorem entryIdentities_eq_flatMap (entries : List (Datum × Datum)) :
    entryIdentities entries = entries.flatMap fun e => e.1.identities ++ e.2.identities := by
  induction entries with
  | nil => rfl
  | cons e rest ih => rw [entryIdentities, List.flatMap_cons, ih]

/-- A dictionary refers to what its keys and values refer to. -/
theorem mem_of_ofPairs {equal : Identity → Identity → Bool} {pairs : List (Datum × Datum)}
    (hi : i ∈ (ofPairs equal pairs).identities) : i ∈ entryIdentities pairs := by
  have insert (key value : Datum) (entries : List (Datum × Datum))
      (h : i ∈ entryIdentities (insertEntry equal key value entries)) :
      i ∈ entryIdentities entries ∨ i ∈ key.identities ++ value.identities := by
    induction entries with
    | nil =>
      rw [insertEntry, entryIdentities, entryIdentities, List.append_nil] at h
      exact .inr h
    | cons e rest ih =>
      obtain ⟨k, v⟩ := e
      rw [insertEntry] at h
      rw [entryIdentities]
      split at h
      · rw [entryIdentities] at h
        rcases List.mem_append.1 h with h | h
        · rcases List.mem_append.1 h with h | h
          · exact .inl (List.mem_append_left _ (List.mem_append_left _ h))
          · exact .inr (List.mem_append_right _ h)
        · exact .inl (List.mem_append_right _ h)
      · rw [entryIdentities] at h
        rcases List.mem_append.1 h with h | h
        · exact .inl (List.mem_append_left _ h)
        · exact (ih h).imp_left (List.mem_append_right _)
  have key (pairs entries : List (Datum × Datum))
      (h : i ∈ entryIdentities (pairs.foldl (fun es p => insertEntry equal p.1 p.2 es) entries)) :
      i ∈ entryIdentities entries ∨ i ∈ entryIdentities pairs := by
    induction pairs generalizing entries with
    | nil => exact .inl h
    | cons p rest ih =>
      rw [entryIdentities]
      rcases ih _ h with h | h
      · exact (insert _ _ _ h).imp_right (List.mem_append_left _)
      · exact .inr (List.mem_append_right _ h)
  rcases key pairs [] hi with h | h
  · cases h
  · exact h

end Datum

/-- An option refers to what all of them refer to. -/
theorem OptionSet.mem_links_of_get? {o : OptionSet} {name : String} {d : Datum} {i : Identity}
    (h : o.get? name = some d) (hi : i ∈ d.identities) : i ∈ o.links := by
  unfold OptionSet.get? at h
  unfold links
  simp only [List.mem_append]
  split at h
  · cases h
    exact .inl (.inl (.inl hi))
  split at h
  · cases h
    exact .inl (.inl (.inr hi))
  split at h
  · cases h
    exact .inl (.inr hi)
  · exact .inr (List.mem_flatMap.2 ⟨d, Session.mem_values_of_find? h, hi⟩)

/-- An option set anew refers to its value. -/
theorem OptionSet.mem_links_of_set {o : OptionSet} {name : String} {value : Datum} {i : Identity}
    (hi : i ∈ (o.set name value).links) : i ∈ o.links ∨ i ∈ value.identities := by
  unfold OptionSet.set at hi
  unfold links at hi ⊢
  simp only [List.mem_append] at hi ⊢
  split at hi
  · rcases hi with ((hi | hi) | hi) | hi
    · exact .inr hi
    · exact .inl (.inl (.inl (.inr hi)))
    · exact .inl (.inl (.inr hi))
    · exact .inl (.inr hi)
  split at hi
  · rcases hi with ((hi | hi) | hi) | hi
    · exact .inl (.inl (.inl (.inl hi)))
    · exact .inr hi
    · exact .inl (.inl (.inr hi))
    · exact .inl (.inr hi)
  split at hi
  · rcases hi with ((hi | hi) | hi) | hi
    · exact .inl (.inl (.inl (.inl hi)))
    · exact .inl (.inl (.inl (.inr hi)))
    · exact .inr hi
    · exact .inl (.inr hi)
  · rcases hi with hi | hi
    · exact .inl (.inl hi)
    · obtain ⟨d, hd, hid⟩ := List.mem_flatMap.1 hi
      rcases Session.mem_values_insert hd with he | hd
      · exact .inr (he ▸ hid)
      · exact .inl (.inr (List.mem_flatMap.2 ⟨d, hd, hid⟩))

/-- Options refer to what the values refer to that they were merged from, or to what was there from
the start. -/
theorem OptionSet.mem_links_of_merge {options : Table Datum} {o : OptionSet} {i : Identity}
    (h : merge (Session.optionsDatum options) = .ok o) (hi : i ∈ o.links) :
    (∃ e ∈ options.entries, i ∈ e.2.identities) ∨ i = .made 0 := by
  have setAll (entries : List (Datum × Datum)) (o : OptionSet) (hi : i ∈ (o.setAll entries).links) :
      i ∈ o.links ∨ ∃ e ∈ entries, i ∈ e.2.identities := by
    unfold OptionSet.setAll at hi
    induction entries generalizing o with
    | nil => exact .inl hi
    | cons e rest ih =>
      rw [List.foldl_cons] at hi
      rcases ih _ hi with hi | ⟨e', he', hi⟩
      · split at hi
        · exact (mem_links_of_set hi).imp_right fun hi => ⟨e, List.mem_cons_self, hi⟩
        · exact .inl hi
      · exact .inr ⟨e', List.mem_cons_of_mem _ he', hi⟩
  obtain ⟨entries, hsub, rfl⟩ : ∃ entries ⊆ options.entries.map fun e => (Datum.text e.1, e.2),
      o = default.setAll entries := by
    have hm : ∃ entries ⊆ options.entries.map fun e => (Datum.text e.1, e.2),
        mappingEntries (Session.optionsDatum options) = .ok entries := by
      unfold mappingEntries
      split
      · exact ⟨_, List.Subset.refl _, rfl⟩
      · exact ⟨[], List.nil_subset _, rfl⟩
    obtain ⟨entries, hsub, hm⟩ := hm
    refine ⟨entries, hsub, ?_⟩
    unfold merge at h
    rw [hm] at h
    simp only [bind, Except.bind] at h
    split at h
    · cases h
    · split at h
      · cases h
        rfl
      · cases h
  rcases setAll entries default hi with hi | ⟨e, he, hi⟩
  · exact .inr (List.mem_singleton.1 hi)
  · obtain ⟨e', he', rfl⟩ := List.mem_map.1 (hsub he)
    exact .inl ⟨e', he', hi⟩

/-- Telling argument and generator apart adds nothing to them. -/
theorem Method.mem_of_bind {m : Method} {first generator argument' generator' : Option Datum}
    (h : m.bind first generator = .ok (argument', generator')) (d : Datum)
    (hd : d ∈ argument' ∨ d ∈ generator') : d ∈ first ∨ d ∈ generator := by
  unfold bind at h
  split at h
  · split at h
    · cases h
      exact hd
    · cases h
  · split at h
    · cases h
    · cases h
      exact hd.elim (fun h => by cases h) .inl
    · cases h
      exact hd.elim (fun h => by cases h) .inr

/-- What walking over a value yields refers to what the value refers to. -/
theorem Datum.mem_of_items? {x d : Datum} {found : List Datum} {i : Identity}
    (h : x.items? = some found) (hd : d ∈ found) (hi : i ∈ d.identities) : i ∈ x.identities := by
  cases x with
  | text s =>
    cases h
    obtain ⟨c, -, rfl⟩ := List.mem_map.1 hd
    cases hi
  | list items =>
    cases h
    rw [identities, itemIdentities_eq_flatMap]
    exact List.mem_flatMap.2 ⟨d, hd, hi⟩
  | dict entries =>
    cases h
    obtain ⟨e, he, rfl⟩ := List.mem_map.1 hd
    rw [identities, entryIdentities_eq_flatMap]
    exact List.mem_flatMap.2 ⟨e, he, List.mem_append_left _ hi⟩
  | nodes ids =>
    cases h
    obtain ⟨n, hn, rfl⟩ := List.mem_map.1 hd
    cases List.mem_singleton.1 hi
    exact List.mem_map_of_mem hn
  | answer fields =>
    cases h
    obtain ⟨f, -, rfl⟩ := List.mem_map.1 hd
    cases hi
  | _ => cases h

/-- A fragment refers to what the argument refers to. -/
theorem Method.mem_of_fragmentOf {look : Appearance} {m : Method} {argument fragment : Datum}
    {i : Identity} (h : m.fragmentOf look argument = .ok fragment) (hi : i ∈ fragment.identities) :
    i ∈ argument.identities := by
  have text {r : Except Error String} {f : String → String}
      (h : r.map (fun t => Datum.text (f t)) = .ok fragment) : i ∈ argument.identities := by
    cases r with
    | error e => cases h
    | ok t =>
      cases h
      cases hi
  cases m with
  | fragment =>
    cases h
    exact hi
  | joined c => exact text h
  | kind => exact text h
  | descendant =>
    cases h
    cases hi
  | shortcut s => exact text (f := id) h

namespace Session

/-! ### Earlier and later sessions -/

/-- A session, and a later one of the same script: nothing that was made is gone. -/
structure Earlier (σ σ₁ : Session) : Prop where
  generators : σ₁.generators = σ.generators
  log : σ₁.log.isSome = σ.log.isSome
  next_le : σ.store.next ≤ σ₁.store.next
  stamps_le : σ.stamps ≤ σ₁.stamps
  selectors : ∀ n < σ.store.next, (σ₁.store.get n).selector = (σ.store.get n).selector
  hosts : ∃ added, σ₁.hosts = σ.hosts ++ added
  bodies : ∃ added, σ₁.bodies = σ.bodies ++ added

namespace Earlier

variable {σ σ₁ σ₂ : Session}

theorem refl (σ : Session) : σ.Earlier σ where
  generators := rfl
  log := rfl
  next_le := Nat.le_refl _
  stamps_le := Nat.le_refl _
  selectors _ _ := rfl
  hosts := ⟨#[], Array.append_empty.symm⟩
  bodies := ⟨#[], Array.append_empty.symm⟩

theorem trans (h : σ.Earlier σ₁) (h' : σ₁.Earlier σ₂) : σ.Earlier σ₂ where
  generators := h'.generators.trans h.generators
  log := h'.log.trans h.log
  next_le := Nat.le_trans h.next_le h'.next_le
  stamps_le := Nat.le_trans h.stamps_le h'.stamps_le
  selectors n hn :=
    (h'.selectors n (Nat.lt_of_lt_of_le hn h.next_le)).trans (h.selectors n hn)
  hosts := by
    obtain ⟨a, ha⟩ := h.hosts
    obtain ⟨b, hb⟩ := h'.hosts
    exact ⟨a ++ b, by rw [hb, ha, Array.append_assoc]⟩
  bodies := by
    obtain ⟨a, ha⟩ := h.bodies
    obtain ⟨b, hb⟩ := h'.bodies
    exact ⟨a ++ b, by rw [hb, ha, Array.append_assoc]⟩

theorem of_amends (h : σ.Amends σ₁) (hn : σ.store.next ≤ σ₁.store.next)
    (hk : σ.stamps ≤ σ₁.stamps)
    (hs : ∀ n < σ.store.next, (σ₁.store.get n).selector = (σ.store.get n).selector) :
    σ.Earlier σ₁ := by
  obtain ⟨_, _, added, _, hl, rfl⟩ := h
  exact ⟨rfl, hl, hn, hk, hs, ⟨#[], Array.append_empty.symm⟩, ⟨added, rfl⟩⟩

theorem of_store {store : Store} (hn : σ.store.next ≤ store.next)
    (hs : ∀ n < σ.store.next, (store.get n).selector = (σ.store.get n).selector) :
    σ.Earlier { σ with store } := .of_amends (.of_store σ store) hn (Nat.le_refl _) hs

/-- Changing the rule sets by some events. -/
theorem of_trail {store : Store} {events : List Event} (ht : σ.store.Trail events store) :
    σ.Earlier { σ with store } := .of_store ht.next_le fun _ hn => (ht.madeAs hn).selector

theorem of_follows (h : σ.Follows σ₁) : σ.Earlier σ₁ :=
  .of_amends (.of_beside h.beside) (Nat.le_of_eq (congrArg Store.next h.beside.store.symm))
    h.stamps_le fun _ _ => by rw [h.beside.store]

/-- Any session is earlier than one with the same generators, log, store, hosts, bodies and numbers.
-/
theorem of_kept (hg : σ₁.generators = σ.generators) (hl : σ₁.log = σ.log)
    (hs : σ₁.store = σ.store) (hh : σ₁.hosts = σ.hosts) (hb : σ₁.bodies = σ.bodies)
    (hk : σ₁.stamps = σ.stamps) : σ.Earlier σ₁ where
  generators := hg
  log := by rw [hl]
  next_le := Nat.le_of_eq (by rw [hs])
  stamps_le := Nat.le_of_eq hk.symm
  selectors n _ := by rw [hs]
  hosts := ⟨#[], by rw [hh, Array.append_empty]⟩
  bodies := ⟨#[], by rw [hb, Array.append_empty]⟩

end Earlier

/-! ### What was made so far -/

/-- Having been made, and having been announced in the log if one is kept, which takes that the rule
set can be shown. One that could not be announced was given up as soon as it was made. -/
def Announced (σ : Session) (n : NodeId) : Prop :=
  n < σ.store.next ∧ (σ.log.isSome = true → ∃ t, σ.store.label σ.hostName n = .ok t)

theorem Announced.lt_next {σ : Session} {n : NodeId} (h : σ.Announced n) : n < σ.store.next := h.1

/-- What was made, and what was announced of that. Generators that the script names are there from the
start. -/
def Has (σ : Session) : Identity → Prop
  | .node n => σ.Announced n
  | .host h => h < σ.hosts.size
  | .generator (.inline id) => id < σ.bodies.size
  | .generator (.named _) => True
  | .made k => k < σ.stamps

/-- Whether a rule set can be shown never changes. -/
theorem Earlier.announced {σ σ₁ : Session} (h : σ.Earlier σ₁) {n : NodeId} (hn : σ.Announced n) :
    σ₁.Announced n := by
  refine ⟨Nat.lt_of_lt_of_le hn.lt_next h.next_le, fun hl => ?_⟩
  obtain ⟨t, ht⟩ := hn.2 (h.log ▸ hl)
  have ha : Agree (σ.store.label σ.hostName n) (σ₁.store.label σ₁.hostName n) :=
    Store.label_agree (fun m hm => congrArg Datum.bare (h.selectors m hm).symm) hn.lt_next
  rcases ha.cases_on with ⟨e, he, -⟩ | ⟨_, t', -, h'⟩
  · cases ht.symm.trans he
  · exact ⟨t', h'⟩

theorem Earlier.has {σ σ₁ : Session} (h : σ.Earlier σ₁) {i : Identity} (hi : σ.Has i) :
    σ₁.Has i := by
  cases i with
  | node n => exact h.announced hi
  | host id =>
    obtain ⟨_, ha⟩ := h.hosts
    show id < σ₁.hosts.size
    rw [ha, Array.size_append]
    exact Nat.lt_add_right _ hi
  | generator g =>
    cases g with
    | named => trivial
    | inline id =>
      obtain ⟨_, ha⟩ := h.bodies
      show id < σ₁.bodies.size
      rw [ha, Array.size_append]
      exact Nat.lt_add_right _ hi
  | made k => exact Nat.lt_of_lt_of_le hi h.stamps_le

/-- Having made all of these. -/
def Covers (σ : Session) (is : List Identity) : Prop := ∀ i ∈ is, σ.Has i

namespace Covers

variable {σ σ₁ : Session} {is js : List Identity}

theorem nil (σ : Session) : σ.Covers [] := nofun

theorem later (h : σ.Covers is) (he : σ.Earlier σ₁) : σ₁.Covers is := fun i hi => he.has (h i hi)

theorem made {k : Stamp} (hk : k < σ.stamps) : σ.Covers [.made k] := fun i hi => by
  cases List.mem_singleton.1 hi
  exact hk

theorem cons {i : Identity} (hi : σ.Has i) (h : σ.Covers is) : σ.Covers (i :: is) :=
  List.forall_mem_cons.2 ⟨hi, h⟩

theorem append (h : σ.Covers is) (h' : σ.Covers js) : σ.Covers (is ++ js) := fun i hi =>
  (List.mem_append.1 hi).elim (h i) (h' i)

theorem of_subset (h : σ.Covers is) (hs : js ⊆ is) : σ.Covers js := fun i hi => h i (hs hi)

end Covers

/-! ### What is worked out -/

/-- Going by a name: a host, what a saved result refers to, or a generator of the script. -/
def ByName (σ : Session) (i : Identity) : Prop :=
  (∃ h ∈ σ.hostNames.values, i = .host h) ∨ (∃ d ∈ σ.saved.values, i ∈ d.identities) ∨
    ∃ name, i = .generator (.named name)

/-- Having been made since, but for rule sets and hosts. -/
def Since (σ σ₁ : Session) : Identity → Prop
  | .generator (.inline id) => σ.bodies.size ≤ id ∧ id < σ₁.bodies.size
  | .made k => σ.stamps ≤ k ∧ k < σ₁.stamps
  | _ => False

theorem Since.later {σ σ₁ σ₂ : Session} {i : Identity} (h : σ.Since σ₁ i) (he : σ₁.Earlier σ₂) :
    σ.Since σ₂ i := by
  unfold Since at h ⊢
  split
  · obtain ⟨_, ha⟩ := he.bodies
    rw [ha, Array.size_append]
    exact ⟨h.1, Nat.lt_add_right _ h.2⟩
  · exact ⟨h.1, Nat.lt_of_lt_of_le h.2 he.stamps_le⟩
  · rename_i hi hm
    split at h
    · exact hi _ rfl
    · exact hm _ rfl
    · exact h

/-- Going by a name in a session, or having been made since. -/
def Told (σ σ₁ : Session) (is : List Identity) : Prop := ∀ i ∈ is, σ.ByName i ∨ σ.Since σ₁ i

namespace Told

variable {σ σ₁ σ₂ : Session} {is js : List Identity}

theorem nil : σ.Told σ₁ [] := nofun

theorem later (h : σ.Told σ₁ is) (hf : σ₁.Follows σ₂) : σ.Told σ₂ is := fun i hi =>
  (h i hi).imp_right fun hs => hs.later (.of_follows hf)

theorem append (h : σ.Told σ₁ is) (h' : σ.Told σ₁ js) : σ.Told σ₁ (is ++ js) := fun i hi =>
  (List.mem_append.1 hi).elim (h i) (h' i)

end Told

/-- Leading only to sessions that follow and, for one that the present one follows, to values that
refer to what goes by a name there or was made since. -/
def Eval.Tells {α : Type} (σ σ₁ : Session) (c : Eval α) (is : α → List Identity) : Prop :=
  ∀ a σ', c σ₁ = .ok (a, σ') → σ₁.Follows σ' ∧ σ.Told σ' (is a)

namespace Eval.Tells

variable {α β γ : Type} {σ σ₁ : Session} {is : α → List Identity} {js : β → List Identity}

theorem pure {a : α} (h : σ.Told σ₁ (is a)) : Tells σ σ₁ (Pure.pure a) is := by
  intro b σ' hb
  cases hb
  exact ⟨.refl σ₁, h⟩

theorem bind {c : Eval α} {f : α → Eval β} (hc : Tells σ σ₁ c is)
    (hf : ∀ a σ₂, σ₁.Follows σ₂ → σ.Told σ₂ (is a) → Tells σ σ₂ (f a) js) :
    Tells σ σ₁ (c >>= f) js := by
  intro b σ' h
  change (c σ₁).bind (fun p => f p.1 p.2) = _ at h
  cases hcσ : c σ₁ with
  | error e => rw [hcσ] at h; cases h
  | ok p =>
    rw [hcσ] at h
    obtain ⟨hb, hcov⟩ := hc p.1 p.2 hcσ
    obtain ⟨hb', hcov'⟩ := hf p.1 p.2 hb hcov b σ' h
    exact ⟨hb.trans hb', hcov'⟩

/-- What refers to nothing can be worked out anyhow. -/
theorem of_keeps {c : Eval α} (hk : c.Keeps) : Tells σ σ₁ c fun _ => [] :=
  fun _ _ hc => ⟨hk.follows hc, .nil⟩

/-- After a computation whose value refers to nothing. -/
theorem after {c : Eval α} {f : α → Eval β} (hk : c.Keeps)
    (hf : ∀ a σ₂, σ₁.Follows σ₂ → Tells σ σ₂ (f a) js) : Tells σ σ₁ (c >>= f) js :=
  (of_keeps hk).bind fun a σ₂ hb _ => hf a σ₂ hb

/-- Several things worked out one after another. -/
theorem mapM {f : β → Eval α} {l : List β} (hσ : σ.Follows σ₁)
    (hf : ∀ b ∈ l, ∀ σ₂ : Session, σ.Follows σ₂ → Tells σ σ₂ (f b) is) :
    Tells σ σ₁ (l.mapM f) (List.flatMap is) := by
  induction l generalizing σ₁ with
  | nil => exact .pure .nil
  | cons b l ih =>
    rw [List.mapM_cons]
    refine (hf b List.mem_cons_self σ₁ hσ).bind fun a σ₂ hb ha =>
      (ih (hσ.trans hb) fun x hx => hf x (List.mem_cons_of_mem _ hx)).bind fun as σ₃ hb' has =>
        .pure ?_
    rw [List.flatMap_cons]
    exact (ha.later hb').append has

end Eval.Tells

section Values

variable {σ σ₁ : Session}

theorem tells_newStamp (hσ : σ.Follows σ₁) : Eval.Tells σ σ₁ newStamp fun k => [.made k] := by
  intro k σ' h
  refine ⟨Eval.Keeps.newStamp.follows h, fun i hi => ?_⟩
  cases h
  cases List.mem_singleton.1 hi
  exact .inr ⟨hσ.stamps_le, Nat.lt_succ_self _⟩

theorem tells_newKind (hσ : σ.Follows σ₁) (name : String) :
    Eval.Tells σ σ₁ (newKind name) Datum.identities := by
  unfold newKind
  split
  · exact .after (.throw _) fun _ _ hb => (tells_newStamp (hσ.trans hb)).bind fun _ _ _ h => .pure h
  · exact (tells_newStamp hσ).bind fun _ _ _ h => .pure h

/-- A generator written in place is there from now on. -/
theorem tells_newGenerator (hσ : σ.Follows σ₁) (body : List Stmt) :
    Eval.Tells σ σ₁ (newGenerator body) fun g => [.generator g] := by
  intro g σ' h
  refine ⟨(Eval.Keeps.newGenerator body).follows h, fun i hi => ?_⟩
  cases h
  cases List.mem_singleton.1 hi
  obtain ⟨_, ha⟩ := (Earlier.of_follows hσ).bodies
  refine .inr ⟨?_, ?_⟩
  · rw [ha, Array.size_append]
    exact Nat.le_add_right _ _
  · show σ₁.bodies.size < (σ₁.bodies.push body).size
    rw [Array.size_push]
    exact Nat.lt_succ_self _

theorem tells_get {f : Session → Datum} (h : σ.Told σ₁ (f σ₁).identities) :
    Eval.Tells σ σ₁ (do return f (← MonadState.get)) Datum.identities := by
  intro d σ' hd
  cases hd
  exact ⟨.refl σ₁, h⟩

mutual

theorem tells_eval {σ σ₁ : Session} (hσ : σ.Follows σ₁) :
    (e : Expr) → Eval.Tells σ σ₁ (eval e) Datum.identities
  | .null | .bool _ | .int _ | .text _ => .pure .nil
  | .named name => .pure fun i hi => by
    cases List.mem_singleton.1 hi
    exact .inl (.inr (.inr ⟨name, rfl⟩))
  | .integer _ => .after (.lift _) fun _ _ _ => .pure .nil
  | .decimal _ => .after (.lift _) fun _ _ _ => .after .newStamp fun _ _ _ => .pure .nil
  | .kind name => tells_newKind hσ name
  | .naming _ => (tells_newStamp hσ).bind fun _ _ _ h => .pure h
  | .list items => (tells_evalItems hσ items).bind fun _ _ _ h => .pure h
  | .dict entries => (tells_evalEntries hσ entries).bind fun _ _ _ h =>
    tells_get fun _ hi => h _ (Datum.mem_of_ofPairs hi)
  | .concat parts => .after (keeps_evalItems parts) fun _ _ _ =>
    .after (.lift _) fun _ _ _ => .pure .nil
  | .host name => tells_get <| by
    obtain ⟨_, _, _, _, rfl⟩ := hσ.beside
    cases hf : σ.hostNames.find? name with
    | none => exact .nil
    | some h =>
      intro i hi
      cases List.mem_singleton.1 hi
      exact .inl (.inl ⟨h, mem_values_of_find? hf, rfl⟩)
  | .saved name => tells_get <| by
    obtain ⟨_, _, _, _, rfl⟩ := hσ.beside
    cases hf : σ.saved.find? name with
    | none => exact .nil
    | some d => exact fun i hi => .inl (.inr (.inl ⟨d, mem_values_of_find? hf, hi⟩))
  | .inline body => (tells_newGenerator hσ body).bind fun _ _ _ h => .pure h

theorem tells_evalItems {σ σ₁ : Session} (hσ : σ.Follows σ₁) :
    (es : List Expr) → Eval.Tells σ σ₁ (evalItems es) Datum.itemIdentities
  | [] => .pure .nil
  | e :: rest => (tells_eval hσ e).bind fun _ _ hb h =>
    (tells_evalItems (hσ.trans hb) rest).bind fun _ _ hb' h' => .pure ((h.later hb').append h')

theorem tells_evalEntries {σ σ₁ : Session} (hσ : σ.Follows σ₁) :
    (es : List (Expr × Expr)) → Eval.Tells σ σ₁ (evalEntries es) Datum.entryIdentities
  | [] => .pure .nil
  | (k, v) :: rest => (tells_eval hσ k).bind fun _ _ hb h =>
    (tells_eval (hσ.trans hb) v).bind fun _ _ hb₁ h₁ =>
      .after (.requireKey _) fun _ _ hb₂ =>
        (tells_evalEntries (((hσ.trans hb).trans hb₁).trans hb₂) rest).bind fun _ _ hb₃ h₃ =>
          .pure (((h.later (hb₁.trans (hb₂.trans hb₃))).append (h₁.later (hb₂.trans hb₃))).append h₃)

end

theorem tells_className (hσ : σ.Follows σ₁) (rule : Naming) (name : Option String) :
    Eval.Tells σ σ₁ (className rule name) Datum.identities := by
  unfold className
  split
  · split
    · exact tells_eval hσ _
    · exact nofun
  · exact nofun
  · exact .pure .nil
  · exact .pure .nil
  · exact .pure .nil
  · exact nofun

/-! ### Arguments -/

theorem tells_option (hσ : σ.Follows σ₁) (e : Option Expr) :
    Eval.Tells σ σ₁ (Action.evaluateOption eval e) fun d => d.toList.flatMap Datum.identities := by
  cases e with
  | none => exact .pure .nil
  | some e =>
    refine (tells_eval hσ e).bind fun d σ₂ _ h => .pure ?_
    simpa using h

theorem tells_named (hσ : σ.Follows σ₁) (keywords : List (String × Expr)) :
    Eval.Tells σ σ₁ (Action.evaluateNamed eval keywords)
      fun ds => (ds.map Prod.snd).flatMap Datum.identities := by
  have h : Eval.Tells σ σ₁ (keywords.mapM fun e => return (e.1, ← eval e.2))
      (List.flatMap fun e : String × Datum => e.2.identities) :=
    Eval.Tells.mapM hσ fun e _ σ₂ hσ₂ => (tells_eval hσ₂ e.2).bind fun d σ₃ _ h => .pure h
  intro ds σ' hd
  obtain ⟨hb, hc⟩ := h ds σ' hd
  refine ⟨hb, ?_⟩
  show σ.Told σ' ((ds.map Prod.snd).flatMap Datum.identities)
  rw [List.flatMap_map]
  exact hc

/-- The arguments of a statement refer to what goes by a name or was only just made. -/
theorem tells_evalAction (hσ : σ.Follows σ₁) (action : Action Expr (List Stmt)) :
    Eval.Tells σ σ₁ (evalAction action) fun a => a.arguments.flatMap Datum.identities := by
  have one {σ₁ : Session} {d : Datum} (h : σ.Told σ₁ d.identities) :
      σ.Told σ₁ ([d].flatMap Datum.identities) := by simpa using h
  unfold evalAction
  cases action with
  | select t method argument generator =>
    refine (tells_option hσ _).bind fun a σ₂ hb h =>
      (tells_option (hσ.trans hb) _).bind fun b σ₃ hb' h' => .pure ?_
    show σ.Told σ₃ ((a.toList ++ b.toList).flatMap _)
    rw [List.flatMap_append]
    exact (h.later hb').append h'
  | assign t properties keywords =>
    refine (tells_option hσ _).bind fun a σ₂ hb h =>
      (tells_named (hσ.trans hb) _).bind fun b σ₃ hb' h' => .pure ?_
    show σ.Told σ₃ ((a.toList ++ b.map Prod.snd).flatMap _)
    rw [List.flatMap_append]
    exact (h.later hb').append h'
  | write | define | setScope | reset | setOption | lookup | release | contains =>
    exact (tells_eval hσ _).bind fun _ _ _ h => .pure (one h)
  | build | construct =>
    refine (tells_eval hσ _).bind fun a σ₂ hb h => (tells_eval (hσ.trans hb) _).bind
      fun b σ₃ hb₁ h₁ => (tells_option ((hσ.trans hb).trans hb₁) _).bind fun c σ₄ hb₂ h₂ =>
        (tells_named (((hσ.trans hb).trans hb₁).trans hb₂) _).bind fun d σ₅ hb₃ h₃ => .pure ?_
    show σ.Told σ₅ ((a :: b :: (c.toList ++ d.map Prod.snd)).flatMap _)
    rw [List.flatMap_cons, List.flatMap_cons, List.flatMap_append]
    exact (h.later (hb₁.trans (hb₂.trans hb₃))).append
      ((h₁.later (hb₂.trans hb₃)).append ((h₂.later hb₃).append h₃))
  | create arguments host options =>
    refine (Eval.Tells.mapM hσ fun e _ σ₂ hσ₂ => tells_eval hσ₂ e).bind fun a σ₂ hb h =>
      (tells_option (hσ.trans hb) _).bind fun c σ₃ hb₁ h₁ =>
        (tells_named ((hσ.trans hb).trans hb₁) _).bind fun d σ₄ hb₂ h₂ => .pure ?_
    show σ.Told σ₄ ((a ++ c.toList ++ d.map Prod.snd).flatMap _)
    rw [List.flatMap_append, List.flatMap_append]
    exact ((h.later (hb₁.trans hb₂)).append (h₁.later hb₂)).append h₂
  | obtain | render =>
    refine (tells_eval hσ _).bind fun a σ₂ hb h => (tells_eval (hσ.trans hb) _).bind
      fun b σ₃ hb₁ h₁ => (tells_named ((hσ.trans hb).trans hb₁) _).bind fun d σ₄ hb₂ h₂ =>
        .pure ?_
    show σ.Told σ₄ ((a :: b :: d.map Prod.snd).flatMap _)
    rw [List.flatMap_cons, List.flatMap_cons]
    exact (h.later (hb₁.trans hb₂)).append ((h₁.later hb₂).append h₂)
  | makeHost name kind =>
    cases kind with
    | equal key =>
      have hk : Eval.Tells σ σ₁ (Action.evaluateKind eval (.equal key))
          fun k => k.key?.toList.flatMap Datum.identities :=
        (tells_eval hσ key).bind fun _ _ _ h => .pure (one h)
      exact hk.bind fun _ _ _ h => .pure h
    | _ => exact .pure .nil
  | check | var | read | iterate | advance | same | drop | dropHost | makeRegistry | size
  | labelRegistry | clear | raise | attempt => exact .pure .nil

end Values

/-! ### Names of what was made -/

/-- The names of hosts and the saved results refer to what was made. -/
structure NamesMade (σ : Session) : Prop where
  hosts : ∀ h ∈ σ.hostNames.values, σ.Has (.host h)
  saved : ∀ d ∈ σ.saved.values, σ.Covers d.identities

namespace NamesMade

variable {σ σ₁ : Session}

theorem later (h : σ.NamesMade) (he : σ.Earlier σ₁) (hh : σ₁.hostNames = σ.hostNames)
    (hs : σ₁.saved = σ.saved) : σ₁.NamesMade where
  hosts id hid := he.has (h.hosts id (hh ▸ hid))
  saved d hd := (h.saved d (hs ▸ hd)).later he

theorem follows (h : σ.NamesMade) (hf : σ.Follows σ₁) : σ₁.NamesMade := by
  refine h.later (.of_follows hf) ?_ ?_ <;>
  · obtain ⟨_, _, _, _, rfl⟩ := hf.beside
    rfl

/-- What is worked out in a session whose names refer to what was made does so as well. -/
theorem covers {α : Type} {c : Eval α} {is : α → List Identity} (h : σ.NamesMade)
    (hc : Eval.Tells σ σ c is) {a : α} (ha : c σ = .ok (a, σ₁)) :
    σ.Follows σ₁ ∧ σ₁.Covers (is a) := by
  obtain ⟨hf, ht⟩ := hc a σ₁ ha
  have he := Earlier.of_follows hf
  refine ⟨hf, fun i hi => ?_⟩
  rcases ht i hi with (⟨id, hid, rfl⟩ | ⟨d, hd, hi⟩ | ⟨name, rfl⟩) | hs
  · exact he.has (h.hosts id hid)
  · exact he.has (h.saved d hd i hi)
  · trivial
  · unfold Since at hs
    split at hs
    · exact hs.2
    · exact hs.2
    · exact hs.elim

end NamesMade

end Session

end RuleTree
