import RuleTree.Proofs.Calls.Amends
import RuleTree.Proofs.Rebuilding.Tables
import RuleTree.Proofs.Sheets.Living

/-!
# What statements do to registries

* `SheetEvent`: a new sheet is kept for a host, a host is released, or a registry is cleared;
* `SheetEvent.leaves`: the sheet filed for a host after an event;
* `Session.sheetEvent?`, `Purpose.sheetEvent?`: the event of a statement that begins, and that of
  one whose body has ended;
* `Session.Refiles`: filing what was filed before, apart from what an event says;
* `Session.refiles_begin`, `Session.refiles_finish`: so do all statements.

A sheet is kept when its generator is through, and by nothing else. To reset a sheet is no event.
-/

namespace RuleTree

/-- What happens to registries. -/
inductive SheetEvent
  /-- the generator of a new sheet came to its end, and the sheet is kept for a host -/
  | built (id : RegistryId) (host : Identity) (sheet : NodeId)
  /-- a host was released -/
  | released (id : RegistryId) (host : Identity)
  /-- a registry was cleared -/
  | cleared (id : RegistryId)
  deriving DecidableEq

/-- The sheet that is filed for a host after an event, by the one that was filed before. -/
def SheetEvent.leaves (id : RegistryId) (h : Identity) (before : Option NodeId) :
    SheetEvent → Option NodeId
  | built id' host sheet => if id' = id ∧ host = h then some sheet else before
  | released id' host => if id' = id ∧ host = h then none else before
  | cleared id' => if id' = id then none else before

/-- The event of a statement that begins: releasing a host and clearing a registry. -/
def Session.sheetEvent? (σ : Session) : Action Datum (List Stmt) → Option SheetEvent
  | .release name host =>
    let (σ, id) := σ.withRegistry name
    match σ.record .releasingSheet host with
    | .error _ => none
    | .ok σ =>
      match σ.asHost host with
      | .error _ => none
      | .ok h => some (.released id h)
  | .clear name => some (.cleared (σ.withRegistry name).2)
  | _ => none

/-- The event of a statement whose body has ended: keeping a new sheet. -/
def Purpose.sheetEvent? : Purpose → Option SheetEvent
  | register id host n _ => some (.built id host n)
  | _ => none

namespace Session

variable {σ σ₁ σ' : Session} {event : Option SheetEvent}

/-! ### Entries -/

theorem filedEntries_setEntries (σ : Session) (id' : RegistryId) (entries : Registry)
    (id : RegistryId) : (σ.setEntries id' entries).filedEntries id =
      if id' = id ∧ id' < σ.registries.size then entries else σ.filedEntries id := by
  unfold setEntries filedEntries
  simp only
  rw [Array.getElem?_setIfInBounds]
  by_cases hid : id' = id
  · subst hid
    by_cases hs : id' < σ.registries.size
    · simp [hs]
    · simp [hs]
  · simp [hid]

theorem filedEntries_push (σ : Session) (id : RegistryId) :
    (σ.registries.push [])[id]?.getD [] = σ.filedEntries id := by
  unfold filedEntries
  rw [Array.getElem?_push]
  split
  · rename_i h
    rw [Array.getElem?_eq_none (Nat.le_of_eq h.symm)]
    rfl
  · rfl

theorem filedEntries_withRegistry (σ : Session) (name : String) (id : RegistryId) :
    (σ.withRegistry name).1.filedEntries id = σ.filedEntries id := by
  unfold withRegistry
  split
  · rfl
  · exact σ.filedEntries_push id

/-- A registry that is looked up by name was there, or is empty. -/
theorem withRegistry_eq_or_empty (σ : Session) (name : String) :
    (σ.withRegistry name).1 = σ ∨ σ.filedEntries (σ.withRegistry name).2 = [] := by
  unfold withRegistry
  split
  · exact .inl rfl
  · refine .inr ?_
    unfold filedEntries makeRegistry
    rw [Array.getElem?_eq_none (Nat.le_refl _)]
    rfl

/-! ### Filing -/

/-- The names of registries lead to registries, and there is a first one. -/
structure Named (σ : Session) : Prop where
  first : firstRegistry < σ.registries.size
  names : ∀ id ∈ σ.registryNames.values, id < σ.registries.size

/-- Filing the sheets that were filed before, apart from what an event says, in registries whose
hosts are kept alive. -/
structure Refiles (σ σ' : Session) (event : Option SheetEvent) : Prop where
  size : σ.registries.size ≤ σ'.registries.size
  named : σ.Named → σ'.Named
  single : ∀ id, σ.Keeps id → ((σ.filedEntries id).map Entry.host).Nodup →
    ((σ'.filedEntries id).map Entry.host).Nodup
  filed : ∀ id, σ.Keeps id → ((σ.filedEntries id).map Entry.host).Nodup → ∀ h,
    σ'.filed id h = (event.map (·.leaves id h (σ.filed id h))).getD (σ.filed id h)

namespace Refiles

/-- Nothing is done to registries. -/
theorem still (hr : σ'.registries = σ.registries) (hn : σ'.registryNames = σ.registryNames) :
    σ.Refiles σ' none := by
  have he (id : RegistryId) : σ'.filedEntries id = σ.filedEntries id := by
    unfold filedEntries
    rw [hr]
  refine ⟨Nat.le_of_eq (by rw [hr]), fun h => ?_, fun id _ hd => ?_, fun id _ _ h => ?_⟩
  · exact ⟨by rw [hr]; exact h.first, by rw [hr, hn]; exact h.names⟩
  · rw [he]
    exact hd
  · show Registry.find? _ _ = _
    rw [he]
    rfl

/-- What comes after does nothing to registries. -/
theorem and_still (h : σ.Refiles σ₁ event) (hr : σ'.registries = σ₁.registries)
    (hn : σ'.registryNames = σ₁.registryNames) : σ.Refiles σ' event := by
  have he (id : RegistryId) : σ'.filedEntries id = σ₁.filedEntries id := by
    unfold Session.filedEntries
    rw [hr]
  refine ⟨by rw [hr]; exact h.size, fun hm => ?_, fun id hk hd => ?_, fun id hk hd i => ?_⟩
  · have hm := h.named hm
    exact ⟨by rw [hr]; exact hm.first, by rw [hr, hn]; exact hm.names⟩
  · rw [he]
    exact h.single id hk hd
  · show Registry.find? (σ'.filedEntries id) _ = _
    rw [he]
    exact h.filed id hk hd i

/-- What comes before does nothing to registries, and keeps their hosts alive. -/
theorem of_still (hr : σ₁.registries = σ.registries) (hn : σ₁.registryNames = σ.registryNames)
    (hk : ∀ id, σ.Keeps id → σ₁.Keeps id) (h : σ₁.Refiles σ' event) : σ.Refiles σ' event := by
  have he (id : RegistryId) : σ₁.filedEntries id = σ.filedEntries id := by
    unfold Session.filedEntries
    rw [hr]
  have hf (id : RegistryId) (i : Identity) : σ₁.filed id i = σ.filed id i := by
    unfold Session.filed
    rw [he]
  refine ⟨by rw [← hr]; exact h.size, fun hm => ?_, fun id hkeep hd => ?_,
    fun id hkeep hd i => ?_⟩
  · exact h.named ⟨by rw [hr]; exact hm.first, by rw [hr, hn]; exact hm.names⟩
  · exact h.single id (hk id hkeep) (by rw [he]; exact hd)
  · rw [← hf]
    exact h.filed id (hk id hkeep) (by rw [he]; exact hd) i

theorem of_amends (h : σ.Amends σ') : σ.Refiles σ' none := by
  obtain ⟨_, _, _, _, _, rfl⟩ := h
  exact still rfl rfl

end Refiles

theorem mem_values_insert {α : Type} {t : Table α} {name : String} {a b : α}
    (h : b ∈ (t.insert name a).values) : b = a ∨ b ∈ t.values := by
  have key (entries : List (String × α))
      (h : b ∈ (Entries.insert name a entries).map Prod.snd) : b = a ∨ b ∈ entries.map Prod.snd := by
    induction entries with
    | nil => simpa [Entries.insert] using h
    | cons e rest ih =>
      obtain ⟨k, v⟩ := e
      unfold Entries.insert at h
      split at h
      · rcases List.mem_cons.1 h with h | h
        · exact .inl h
        · exact .inr (List.mem_cons_of_mem _ h)
      · rcases List.mem_cons.1 h with h | h
        · exact .inr (List.mem_cons.2 (.inl h))
        · exact (ih h).imp id (List.mem_cons_of_mem _)
  exact key t.entries h

theorem mem_values_of_find? {α : Type} {t : Table α} {name : String} {a : α}
    (h : t.find? name = some a) : a ∈ t.values :=
  List.mem_map_of_mem (Entries.mem_of_find? h)

theorem mem_values_of_mem_erase {α : Type} {t : Table α} {name : String} {a : α}
    (h : a ∈ (t.erase name).values) : a ∈ t.values :=
  (List.filter_sublist.map Prod.snd).subset h

theorem refiles_makeRegistry (σ : Session) (name : String) :
    σ.Refiles (σ.makeRegistry name).1 none := by
  have he (id : RegistryId) : (σ.makeRegistry name).1.filedEntries id = σ.filedEntries id :=
    σ.filedEntries_push id
  have hs : (σ.makeRegistry name).1.registries.size = σ.registries.size + 1 := Array.size_push ..
  refine ⟨by omega, fun h => ⟨?_, fun id hid => ?_⟩, fun id _ hd => ?_, fun id _ _ h => ?_⟩
  · rw [hs]
    exact Nat.lt_succ_of_lt h.first
  · rw [hs]
    rcases mem_values_insert hid with rfl | hid
    · exact Nat.lt_succ_self _
    · exact Nat.lt_succ_of_lt (h.names id hid)
  · rw [he]
    exact hd
  · show Registry.find? _ _ = _
    rw [he]
    rfl

theorem refiles_withRegistry (σ : Session) (name : String) :
    σ.Refiles (σ.withRegistry name).1 none := by
  unfold withRegistry
  split
  · exact .still rfl rfl
  · exact refiles_makeRegistry σ name

/-- New entries of one registry. -/
theorem refiles_setEntries (hr : σ.Refiles σ₁ none) {id' : RegistryId} {entries : Registry}
    {e : SheetEvent} (hin : id' < σ₁.registries.size ∨ entries = [])
    (hother : ∀ id ≠ id', ∀ h before, e.leaves id h before = before)
    (hs : σ.Keeps id' → ((σ.filedEntries id').map Entry.host).Nodup →
      (entries.map Entry.host).Nodup ∧
      ∀ h, entries.find? (· == h) = e.leaves id' h (σ.filed id' h)) :
    σ.Refiles (σ₁.setEntries id' entries) (some e) := by
  have he (id : RegistryId) : (σ₁.setEntries id' entries).filedEntries id =
      if id' = id then entries else σ₁.filedEntries id := by
    rw [filedEntries_setEntries]
    by_cases hid : id' = id
    · subst hid
      rcases hin with hlt | rfl
      · simp [hlt]
      -- what is not there has no entries, and gets none
      · by_cases hlt : id' < σ₁.registries.size
        · simp [hlt]
        · simp only [hlt, and_false, if_false, if_true]
          unfold filedEntries
          rw [Array.getElem?_eq_none (Nat.not_lt.1 hlt)]
          rfl
    · simp [hid]
  have hsize : (σ₁.setEntries id' entries).registries.size = σ₁.registries.size :=
    Array.size_setIfInBounds ..
  refine ⟨?_, fun h => ⟨?_, ?_⟩, fun id hk hd => ?_, fun id hk hd h => ?_⟩
  · rw [hsize]
    exact hr.size
  · rw [hsize]
    exact (hr.named h).first
  · rw [hsize]
    exact (hr.named h).names
  · rw [he]
    split
    · rename_i hid
      subst hid
      exact (hs hk hd).1
    · exact hr.single id hk hd
  · show Registry.find? ((σ₁.setEntries id' entries).filedEntries id) _ = _
    rw [he]
    split
    · rename_i hid
      subst hid
      exact (hs hk hd).2 h
    · rename_i hid
      rw [Option.map_some, Option.getD_some, hother id fun h => hid h.symm]
      exact hr.filed id hk hd h

/-- Whoever is alive keeps a registry's hosts. -/
theorem Keeps.congr {id : RegistryId} (hk : σ.Keeps id) (hl : σ₁.living = σ.living)
    (hr : σ₁.registries = σ.registries) (hh : σ₁.hosts = σ.hosts) : σ₁.Keeps id := by
  have he : σ₁.filedEntries id = σ.filedEntries id := by
    unfold filedEntries
    rw [hr]
  intro e hm
  rw [he] at hm
  refine ⟨?_, fun h => ?_⟩
  · unfold alive
    rw [hl]
    exact (hk e hm).1
  · have hq : σ₁.equal e.host h = σ.equal e.host h := by
      have hst (i : Identity) : σ₁.standing i = σ.standing i := by
        cases i <;> simp only [standing, hh]
      unfold equal
      rw [hst, hst]
    rw [hq]
    exact (hk e hm).2 h

theorem Keeps.of_beside {id : RegistryId} (hk : σ.Keeps id) (h : σ.Beside σ₁) : σ₁.Keeps id := by
  obtain ⟨stamps, added, log, -, rfl⟩ := h
  exact hk.congr (living_congr rfl rfl rfl rfl) rfl rfl

/-- A registry shows nothing that is not filed. -/
theorem entries_eq_nil {id : RegistryId} (h : σ.filedEntries id = []) : σ.entries id = [] := by
  unfold entries
  rw [show σ.registries[id]?.getD [] = [] from h]
  rfl

theorem filedEntries_eq_nil {id : RegistryId} (h : ¬ id < σ.registries.size) :
    σ.filedEntries id = [] := by
  unfold filedEntries
  rw [Array.getElem?_eq_none (Nat.not_lt.1 h)]
  rfl

/-! ### Statements -/

/-- Forgetting the sheet of a host, in a registry that was looked up by name. -/
theorem refiles_eraseSheet (σ : Session) (name : String) {σ₂ : Session}
    (hb : (σ.withRegistry name).1.Beside σ₂) (h : Identity) :
    σ.Refiles (σ₂.eraseSheet (σ.withRegistry name).2 h)
      (some (.released (σ.withRegistry name).2 h)) := by
  have h₂ : σ.Refiles σ₂ none := by
    obtain ⟨stamps, added, log, -, rfl⟩ := hb
    exact (σ.refiles_withRegistry name).and_still rfl rfl
  have hf : σ₂.filedEntries (σ.withRegistry name).2 = σ.filedEntries (σ.withRegistry name).2 := by
    obtain ⟨stamps, added, log, -, rfl⟩ := hb
    exact σ.filedEntries_withRegistry name _
  have hes (hk : σ.Keeps (σ.withRegistry name).2) :
      σ₂.entries (σ.withRegistry name).2 = σ.filedEntries (σ.withRegistry name).2 ∧
        ∀ e ∈ σ.filedEntries (σ.withRegistry name).2, σ₂.equal e.host h = true ↔ e.host = h := by
    rcases σ.withRegistry_eq_or_empty name with hw | hw
    · have hk₂ : σ₂.Keeps (σ.withRegistry name).2 := (hw.symm ▸ hk : Keeps _ _).of_beside hb
      refine ⟨hk₂.entries_eq.trans hf, fun e he => ?_⟩
      exact (hk₂ e (hf ▸ he)).2 h
    -- a registry that was only just made has no entries
    · rw [hw]
      exact ⟨entries_eq_nil (hf.trans hw), by simp⟩
  refine refiles_setEntries h₂ ?_ (fun id hid i before => ?_) fun hk hd => ?_
  · by_cases hlt : (σ.withRegistry name).2 < σ₂.registries.size
    · exact .inl hlt
    · rw [entries_eq_nil (filedEntries_eq_nil hlt)]
      exact .inr rfl
  · exact if_neg fun hc => hid hc.1.symm
  · obtain ⟨he, hi⟩ := hes hk
    rw [he]
    refine ⟨hd.sublist (Registry.hosts_erase_sublist _ _), fun i => ?_⟩
    rw [Registry.find?_erase hi hd]
    by_cases hh : h = i
    · simp [SheetEvent.leaves, hh]
    · simp only [SheetEvent.leaves, hh, and_false, if_false]
      rfl

theorem refiles_release (σ : Session) (name : String) (host : Datum) :
    σ.Refiles (σ.begin (.release name host)).session (σ.sheetEvent? (.release name host)) := by
  have hw := σ.refiles_withRegistry name
  simp only [begin, onRegistry, release, sheetEvent?]
  cases hr : (σ.withRegistry name).1.record .releasingSheet host with
  | error e => exact hw
  | ok σ₂ =>
    have hb := Session.Beside.of_record hr
    have h₂ : σ.Refiles σ₂ none := by
      obtain ⟨stamps, added, log, -, rfl⟩ := hb
      exact hw.and_still rfl rfl
    simp only
    cases ha : σ₂.asHost host with
    | ok h => exact refiles_eraseSheet σ name hb h
    | error e =>
      cases e with
      | notHashable =>
        simp only
        split <;> exact h₂
      | _ => exact h₂

theorem refiles_clear (σ : Session) (name : String) :
    σ.Refiles (σ.begin (.clear name)).session (σ.sheetEvent? (.clear name)) := by
  show σ.Refiles ((σ.withRegistry name).1.setEntries (σ.withRegistry name).2 [])
    (some (.cleared (σ.withRegistry name).2))
  refine refiles_setEntries (σ.refiles_withRegistry name) (.inr rfl) (fun id hid h before => ?_)
    fun _ _ => ⟨List.nodup_nil, fun h => ?_⟩
  · exact if_neg fun hc => hid hc.symm
  · exact (if_pos rfl).symm

/-- The beginning of a statement files what it filed before, apart from what its event says. -/
theorem refiles_begin (σ : Session) (action : Action Datum (List Stmt)) :
    σ.Refiles (σ.begin action).session (σ.sheetEvent? action) := by
  cases hr : action.reaches with
  | false =>
    have he : σ.sheetEvent? action = none := by
      cases action <;> first | rfl | cases hr
    rw [he]
    exact .of_amends (σ.amends_begin hr).session
  | true =>
    have obtained (name : String) {st : Start}
        (h : st.Amends (σ.withRegistry name).1 [(σ.withRegistry name).2]) :
        σ.Refiles st.session none := by
      obtain ⟨store, stamps, added, log, -, hs⟩ := h.session
      rw [hs]
      exact (σ.refiles_withRegistry name).and_still rfl rfl
    cases action with
    | iterate t walk iteration =>
      simp only [begin, iterate]
      split <;> exact .still rfl rfl
    | advance iteration count =>
      simp only [begin, advance]
      split <;> exact .still rfl rfl
    | drop | makeHost | dropHost => exact .still rfl rfl
    | makeRegistry name => exact σ.refiles_makeRegistry name
    | lookup name | contains name | size name | labelRegistry name =>
      exact σ.refiles_withRegistry name
    | release name host => exact σ.refiles_release name host
    | clear name => exact σ.refiles_clear name
    | obtain name host generator options => exact obtained name (amends_obtain ..)
    | render name host generator options => exact obtained name (amends_obtain ..)
    | _ => cases hr

/-- The end of a body files what was filed before, apart from a new sheet that is kept. -/
theorem refiles_finish (σ : Session) {purpose : Purpose}
    (hi : ∀ id, purpose.registry? = some id → id < σ.registries.size) :
    σ.Refiles (σ.finish purpose).session purpose.sheetEvent? := by
  cases purpose with
  | register id host n out =>
    refine refiles_setEntries (.still rfl rfl) (.inl (hi id rfl)) (fun id' hid h before => ?_)
      fun hk hd => ?_
    · exact if_neg fun hc => hid hc.1.symm
    · have he : ∀ e ∈ σ.filedEntries id, σ.equal e.host host = true ↔ e.host = host :=
        fun e he => (hk e he).2 host
      rw [hk.entries_eq]
      refine ⟨?_, fun h => ?_⟩
      · rw [Registry.hosts_put he]
        split
        · exact hd
        · rename_i hm
          exact (List.perm_append_singleton host _).nodup_iff.2 (List.nodup_cons.2 ⟨hm, hd⟩)
      · rw [Registry.find?_put he]
        by_cases hh : host = h
        · simp [SheetEvent.leaves, hh]
        · simp only [SheetEvent.leaves, hh, and_false, if_false]
          rfl
  | select child fragment className =>
    exact .of_amends ((σ.amends_finish (by simp) : Start.Amends σ [] _).session)
  | build n out => exact .still rfl rfl
  | reset n registry out => exact .still rfl rfl
  | name n kind generator callee =>
    exact .of_amends ((σ.amends_finish (by simp) : Start.Amends σ [] _).session)
  | probe n callee listed name rest =>
    exact .of_amends ((σ.amends_finish (by simp) : Start.Amends σ [] _).session)
  | attempt => exact .still rfl rfl

end Session

end RuleTree
