import RuleTree.Proofs.Sheets.Filing

/-!
# The one entry of a host

* `Registry.find?_concat`, `Registry.put_of_none`: the entries of hosts that have no other one;
* `Session.HasHost`: a value is a host that can have a style sheet, and lives without others;
* `Session.Files`: a style sheet was entered for a host last, and there is no entry for an equal
  host;
* `Session.Files.sheet?`, `Session.sheet?_eq_none`: what is found for the host with and without such
  an entry;
* `Session.files_putSheet`: a style sheet is entered so if none was entered before.
-/

namespace RuleTree

namespace Registry

variable {entries : Registry} {isHost : Identity → Bool} {host : Identity}

theorem find?_eq_none (h : ∀ e ∈ entries, isHost e.host = false) : find? entries isHost = none := by
  unfold find?
  rw [List.find?_eq_none.2 fun e he => Bool.eq_false_iff.1 (h e he)]
  rfl

/-- The sheet of a host whose entry is the last one. -/
theorem find?_concat (h : ∀ e ∈ entries, isHost e.host = false) (hi : isHost host = true)
    (sheet : NodeId) : find? (entries ++ [⟨host, sheet⟩]) isHost = some sheet := by
  have hnone : List.find? (fun e : Entry => isHost e.host) entries = none :=
    List.find?_eq_none.2 fun e he => Bool.eq_false_iff.1 (h e he)
  have hlast : [⟨host, sheet⟩].find? (fun e : Entry => isHost e.host) = some ⟨host, sheet⟩ :=
    List.find?_cons_of_pos hi
  unfold find?
  rw [List.find?_append, hnone, Option.none_or, hlast]
  rfl

/-- A host without an entry gets the last one. -/
theorem put_of_none (h : ∀ e ∈ entries, isHost e.host = false) (sheet : NodeId) :
    put isHost host sheet entries = entries ++ [⟨host, sheet⟩] := by
  induction entries with
  | nil => rfl
  | cons e rest ih =>
    have he : ¬ isHost e.host = true := Bool.eq_false_iff.1 (h e List.mem_cons_self)
    unfold put
    rw [if_neg he, ih fun e he => h e (List.mem_cons_of_mem _ he), List.cons_append]

end Registry

namespace Session

variable {σ σ₁ : Session} {name : String} {id : RegistryId} {host : Datum} {i : Identity} {r : NodeId}

/-- A registry that is looked up by name goes by it then. Nothing else changes. -/
theorem withRegistry_eq (σ : Session) (name : String) : ∃ registries registryNames,
    (σ.withRegistry name).1 = { σ with registries, registryNames } ∧
      registryNames.find? name = some (σ.withRegistry name).2 := by
  unfold withRegistry
  split
  · rename_i id hid
    exact ⟨σ.registries, σ.registryNames, rfl, hid⟩
  · exact ⟨_, _, rfl, Table.find?_insert_self ..⟩

/-- A value is a host that can have a style sheet: it has a hash, is equal to itself, and is a
generator that the script names or lives by itself. -/
structure HasHost (σ : Session) (host : Datum) (i : Identity) : Prop where
  asHost : σ.asHost host = .ok i
  equal : σ.equal i i = true
  lives : (∃ name, i = .generator (.named name)) ∨ i ∈ σ.roots

namespace HasHost

theorem congr (h : σ.HasHost host i) (hh : σ₁.hosts = σ.hosts) (hr : σ₁.roots = σ.roots) :
    σ₁.HasHost host i where
  asHost := by
    rw [← h.asHost]
    unfold Session.asHost hasHash
    rw [hh]
  equal := by
    rw [← h.equal]
    unfold Session.equal standing
    rw [hh]
  lives := hr ▸ h.lives

end HasHost

/-- In the registry of that name a style sheet was entered for a host last, and there is no entry
for an equal host. -/
structure Files (σ : Session) (name : String) (id : RegistryId) (i : Identity) (r : NodeId) :
    Prop where
  registry : σ.registryNames.find? name = some id
  filed : ∃ before, σ.filedEntries id = before ++ [⟨i, r⟩] ∧
    ∀ e ∈ before, σ.equal e.host i = false

namespace Files

theorem withRegistry (h : σ.Files name id i r) : σ.withRegistry name = (σ, id) := by
  unfold Session.withRegistry
  rw [h.registry]

theorem congr (h : σ.Files name id i r) (hr : σ₁.registries = σ.registries)
    (hn : σ₁.registryNames = σ.registryNames) (hh : σ₁.hosts = σ.hosts) : σ₁.Files name id i r where
  registry := hn ▸ h.registry
  filed := by
    obtain ⟨before, hf, he⟩ := h.filed
    refine ⟨before, ?_, fun e hm => ?_⟩
    · unfold filedEntries at hf ⊢
      rw [hr]
      exact hf
    · rw [← he e hm]
      unfold equal standing
      rw [hh]

/-- The style sheet is the one that is found for the host. -/
theorem sheet? (h : σ.Files name id i r) (hh : σ.HasHost host i) : σ.sheet? id i = some r := by
  obtain ⟨before, hf, he⟩ := h.filed
  have alive : σ.living.has i = true :=
    has_livingWith_iff.2 (hh.lives.imp_right fun hr => .start (List.mem_append_left _ hr))
  have hlast : [⟨i, r⟩].filter (fun e : Entry => σ.living.has e.host) = [⟨i, r⟩] :=
    List.filter_cons_of_pos alive
  have hentries : σ.entries id = before.filter (fun e => σ.living.has e.host) ++ [⟨i, r⟩] := by
    show (σ.filedEntries id).filter (fun e => σ.living.has e.host) = _
    rw [hf, List.filter_append, hlast]
  unfold Session.sheet?
  rw [hentries]
  exact @Registry.find?_concat _ (σ.equal · i) _ (fun e hm => he e (List.mem_filter.1 hm).1)
    hh.equal r

end Files

/-- No style sheet is found for a host if none was entered for an equal one. -/
theorem sheet?_eq_none (h : ∀ e ∈ σ.filedEntries id, σ.equal e.host i = false) :
    σ.sheet? id i = none := Registry.find?_eq_none fun e hm => h e (List.mem_filter.1 hm).1

/-- A style sheet that is kept for a host without one is entered last. -/
theorem files_putSheet (registry : σ.registryNames.find? name = some id)
    (lt : id < σ.registries.size) (h : ∀ e ∈ σ.filedEntries id, σ.equal e.host i = false)
    (r : NodeId) : (σ.putSheet id i r).Files name id i r := by
  have he : ∀ e ∈ σ.entries id, σ.equal e.host i = false := fun e hm => h e (List.mem_filter.1 hm).1
  refine ⟨registry, σ.entries id, ?_, he⟩
  unfold putSheet
  rw [filedEntries_setEntries, if_pos ⟨rfl, lt⟩, Registry.put_of_none he]

end Session

end RuleTree
