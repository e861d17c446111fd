import RuleTree.Proofs.Calls.Turn
import RuleTree.Session.Sheets

/-!
# Registries whose hosts are kept alive

* `Session.entries_congr`: what is alive, and so what a registry shows, depends on the calls in
  progress only by what they keep alive;
* `Session.Keeps`: the hosts of a registry are alive and equal to nothing but themselves;
* `Session.Distinct`, `Session.Distinct.keeps`: a registry is so if no two hosts are equal and its
  own live by themselves;
* `Session.filed`: the sheet filed for a host, whether or not the host is alive;
* `Session.Keeps.entries_eq`, `Session.Keeps.sheet?_eq`: such a registry shows all that is filed;
* `Registry.find?_put`, `Registry.find?_erase`: what keeping and forgetting a sheet does to the
  others.
-/

namespace RuleTree

namespace Session

variable {σ σ' : Session}

/-! ### What is alive -/

theorem livingWith_of_links (hr : σ'.roots = σ.roots) (hl : σ'.links = σ.links)
    (hs : σ'.store.next = σ.store.next) (hh : σ'.hosts = σ.hosts) :
    σ'.livingWith = σ.livingWith := by
  have hn : σ'.number? = σ.number? := by
    funext i
    cases i <;> simp only [number?, hs, hh]
  funext entries
  unfold livingWith
  simp only [hr, hs, hh, hl, hn]

theorem livingWith_congr (hr : σ'.roots = σ.roots) (hs : σ'.store = σ.store)
    (hh : σ'.hosts = σ.hosts) : σ'.livingWith = σ.livingWith := by
  refine livingWith_of_links hr ?_ (congrArg Store.next hs) hh
  funext i
  cases i <;> simp only [links, hs, hh]

/-- Which entries last only depends on what their sheets keep alive. -/
theorem lasting_congr
    (h : ∀ entries i, (σ'.livingWith entries).has i = (σ.livingWith entries).has i)
    (entries : List Entry) : σ'.lasting entries = σ.lasting entries := by
  have hs (entries : List Entry) : σ'.supported entries = σ.supported entries :=
    List.filter_congr fun e _ => h entries e.host
  induction entries using lasting.induct σ with
  | case1 entries hlt ih =>
    have hlt' : (σ'.supported entries).length < entries.length := hs entries ▸ hlt
    unfold lasting
    rw [dif_pos hlt', dif_pos hlt, hs, ih]
  | case2 entries hlt =>
    have hlt' : ¬ (σ'.supported entries).length < entries.length := hs entries ▸ hlt
    unfold lasting
    rw [dif_neg hlt', dif_neg hlt]

theorem living_of_livingWith (h : σ'.livingWith = σ.livingWith)
    (ho : σ'.openEntries = σ.openEntries) : σ'.living = σ.living := by
  have hl : ∀ entries i, (σ'.livingWith entries).has i = (σ.livingWith entries).has i :=
    fun _ _ => by rw [h]
  unfold living
  rw [h, ho, lasting_congr hl]

/-- What a registry shows depends on the calls only by what they keep alive. -/
theorem living_congr (hr : σ'.roots = σ.roots) (hs : σ'.store = σ.store)
    (hh : σ'.hosts = σ.hosts) (ho : σ'.openEntries = σ.openEntries) : σ'.living = σ.living :=
  living_of_livingWith (livingWith_congr hr hs hh) ho

end Session

/-! ### Filed sheets -/

namespace Registry

variable {r : Registry} {isHost : Identity → Bool} {host : Identity}

/-- Keeping the sheet of a host changes what is filed for it and for no other. -/
theorem find?_put (hr : ∀ e ∈ r, isHost e.host = true ↔ e.host = host) (sheet : NodeId)
    (h : Identity) : (put isHost host sheet r).find? (· == h) =
      if host = h then some sheet else r.find? (· == h) := by
  unfold find?
  induction r with
  | nil =>
    by_cases hh : host = h
    · simp [put, hh]
    · simp [put, hh]
  | cons e rest ih =>
    have he := hr e List.mem_cons_self
    have ih := ih fun e he => hr e (List.mem_cons_of_mem _ he)
    by_cases hi : isHost e.host = true
    · have heq := he.1 hi
      rw [put, if_pos hi]
      by_cases hh : host = h
      · simp [heq, hh]
      · have hne : ¬ e.host = h := fun hc => hh (heq ▸ hc)
        simp [hh, hne]
    · rw [put, if_neg hi]
      by_cases hh : e.host = h
      · have hne : ¬ host = h := fun hc => hi (he.2 (hh.trans hc.symm))
        simp [hh, hne]
      · rw [List.find?_cons, List.find?_cons]
        simp only [beq_eq_false_iff_ne.2 hh]
        exact ih

theorem hosts_put (hr : ∀ e ∈ r, isHost e.host = true ↔ e.host = host) (sheet : NodeId) :
    (put isHost host sheet r).map Entry.host =
      if host ∈ r.map Entry.host then r.map Entry.host else r.map Entry.host ++ [host] := by
  induction r with
  | nil => simp [put]
  | cons e rest ih =>
    have he := hr e List.mem_cons_self
    have ih := ih fun e he => hr e (List.mem_cons_of_mem _ he)
    by_cases hi : isHost e.host = true
    · have heq := he.1 hi
      rw [put, if_pos hi]
      simp [heq]
    · have hne : ¬ host = e.host := fun hc => hi (he.2 hc.symm)
      rw [put, if_neg hi, List.map_cons, ih]
      by_cases hm : host ∈ rest.map Entry.host
      · rw [if_pos hm, List.map_cons, if_pos (List.mem_cons_of_mem _ hm)]
      · have hm' : host ∉ (e :: rest).map Entry.host := fun h =>
          (List.mem_cons.1 h).elim hne hm
        rw [if_neg hm, if_neg hm']
        rfl

/-- Forgetting the sheet of a host changes what is filed for it and for no other. -/
theorem find?_erase (hr : ∀ e ∈ r, isHost e.host = true ↔ e.host = host)
    (hd : (r.map Entry.host).Nodup) (h : Identity) :
    (erase isHost r).find? (· == h) = if host = h then none else r.find? (· == h) := by
  unfold find?
  induction r with
  | nil => simp [erase]
  | cons e rest ih =>
    have he := hr e List.mem_cons_self
    obtain ⟨hne, hd⟩ := List.nodup_cons.1 hd
    have ih := ih (fun e he => hr e (List.mem_cons_of_mem _ he)) hd
    by_cases hi : isHost e.host = true
    · have heq := he.1 hi
      rw [erase, if_pos hi]
      by_cases hh : host = h
      · rw [if_pos hh, List.find?_eq_none.2 fun x hx => ?_]
        · rfl
        · have : ¬ x.host = h := fun hc =>
            hne (List.mem_map.2 ⟨x, hx, by rw [hc, ← hh, heq]⟩)
          simpa using this
      · have hne : ¬ e.host = h := fun hc => hh (heq ▸ hc)
        simp [hh, hne]
    · rw [erase, if_neg hi]
      by_cases hh : e.host = h
      · have hne : ¬ host = h := fun hc => hi (he.2 (hh.trans hc.symm))
        simp [hh, hne]
      · rw [List.find?_cons, List.find?_cons]
        simp only [beq_eq_false_iff_ne.2 hh]
        exact ih

/-- What is kept is the new sheet, or was kept before. -/
theorem mem_put {sheet : NodeId} {e : Entry} (h : e ∈ put isHost host sheet r) :
    (∃ e' ∈ r, e'.sheet = e.sheet) ∨ sheet = e.sheet := by
  induction r with
  | nil => exact .inr (by rw [List.mem_singleton.1 h])
  | cons first rest ih =>
    unfold put at h
    split at h
    · rcases List.mem_cons.1 h with rfl | h
      · exact .inr rfl
      · exact .inl ⟨e, List.mem_cons_of_mem _ h, rfl⟩
    · rcases List.mem_cons.1 h with rfl | h
      · exact .inl ⟨e, List.mem_cons_self, rfl⟩
      · exact (ih h).imp_left fun ⟨e', he', hs⟩ => ⟨e', List.mem_cons_of_mem _ he', hs⟩

theorem erase_sublist (r : Registry) (isHost : Identity → Bool) : (erase isHost r).Sublist r := by
  induction r with
  | nil => exact List.Sublist.refl _
  | cons e rest ih =>
    unfold erase
    split
    · exact List.sublist_cons_self _ _
    · exact ih.cons_cons _

theorem hosts_erase_sublist (r : Registry) (isHost : Identity → Bool) :
    ((erase isHost r).map Entry.host).Sublist (r.map Entry.host) := (erase_sublist r isHost).map _

theorem find?_congr {p q : Identity → Bool} (h : ∀ e ∈ r, p e.host = q e.host) :
    r.find? p = r.find? q := by
  unfold find?
  induction r with
  | nil => rfl
  | cons e rest ih =>
    rw [List.find?_cons, List.find?_cons, h e List.mem_cons_self]
    cases q e.host with
    | true => rfl
    | false => exact ih fun e he => h e (List.mem_cons_of_mem _ he)

/-- A sheet is filed for the hosts that are there, and for no others. -/
theorem isSome_find?_iff (r : Registry) (h : Identity) :
    (r.find? (· == h)).isSome = true ↔ h ∈ r.map Entry.host := by
  unfold find?
  rw [Option.isSome_map, List.find?_isSome, List.mem_map]
  simp

end Registry

namespace Session

variable {σ : Session} {id : RegistryId}

/-- The entries of a registry, whether or not their hosts are alive. -/
def filedEntries (σ : Session) (id : RegistryId) : Registry := σ.registries[id]?.getD []

/-- The style sheet filed for a host. -/
def filed (σ : Session) (id : RegistryId) (h : Identity) : Option NodeId :=
  (σ.filedEntries id).find? (· == h)

/-- The hosts of a registry are alive, and compared by identity. -/
def Keeps (σ : Session) (id : RegistryId) : Prop :=
  ∀ e ∈ σ.filedEntries id, σ.alive e.host = true ∧ ∀ h, σ.equal e.host h = true ↔ e.host = h

/-- Every host is equal to itself alone. -/
def Distinct (σ : Session) : Prop :=
  ∀ h < σ.hosts.size, (σ.hosts[h]?.bind Host.like) = some h

instance (σ : Session) : Decidable σ.Distinct :=
  inferInstanceAs (Decidable (∀ h < σ.hosts.size, (σ.hosts[h]?.bind Host.like) = some h))

theorem Distinct.equal_iff (hd : σ.Distinct) (i j : Identity) : σ.equal i j = true ↔ i = j := by
  have hs (i : Identity) : σ.standing i = some i := by
    cases i with
    | host h =>
      show ((σ.hosts[h]?.map Host.like).getD (some h)).map Identity.host = some (.host h)
      rcases Nat.lt_or_ge h σ.hosts.size with hlt | hge
      · have hl := hd h hlt
        rw [Array.getElem?_eq_getElem hlt] at hl ⊢
        rw [Option.map_some, Option.getD_some, show σ.hosts[h].like = some h from hl]
        rfl
      · rw [Array.getElem?_eq_none hge]
        rfl
    | generator g => rfl
    | node n => rfl
    | made stamp => rfl
  unfold equal
  rw [hs, hs, Option.any_some, beq_iff_eq, Option.some_inj]
  exact eq_comm

/-- Hosts that live by themselves and are equal to themselves alone are kept. -/
theorem Distinct.keeps (hd : σ.Distinct) (hr : ∀ e ∈ σ.filedEntries id, e.host ∈ σ.roots) :
    σ.Keeps id := fun e he =>
  ⟨has_livingWith_iff.2 (.inr (.start (List.mem_append_left _ (hr e he)))), hd.equal_iff e.host⟩

/-- Such a registry shows all its entries. -/
theorem Keeps.entries_eq (hk : σ.Keeps id) : σ.entries id = σ.filedEntries id := by
  unfold entries
  exact List.filter_eq_self.2 fun e he => (hk e he).1

/-- The style sheet of a host is the one that is filed for it. -/
theorem Keeps.sheet?_eq (hk : σ.Keeps id) (h : Identity) : σ.sheet? id h = σ.filed id h := by
  unfold sheet? filed
  rw [hk.entries_eq]
  refine Registry.find?_congr fun e he => ?_
  rw [Bool.eq_iff_iff, (hk e he).2 h, beq_iff_eq]

end Session

end RuleTree
