import RuleTree.Proofs.Calls.Running
import RuleTree.Proofs.Sheets.Built
import Mathlib.Data.List.Perm.Subperm

/-!
# A place for every style sheet

* `Session.filedEntries_begin`: the beginning of a statement files nothing new;
* `Session.shelf`: the sheets that are being built and those that are filed, in all registries;
* `Session.KeptFor`, `Session.Shelved`: every sheet has one place, and is kept for the host that it
  was built for, or for a host that is equal to that one;
* `Session.Shelved.next`, `Session.Shelved.put`: what is building is new or was so before, and at
  last leaves its place for one in a registry;
* `Machine.shelved`: so it is in every state of a script.

A host that is equal to another one finds the entry of that one, and a sheet that was built for it
takes the place of the sheet in this entry.
-/

namespace RuleTree

/-- The sheet that is to be kept once a body has ended. -/
def Purpose.sheet? : Purpose → Option NodeId
  | register _ _ n _ => some n
  | _ => none

/-- The sheets that calls are building in order to keep them. -/
def buildingOf (calls : List Call) : List NodeId := calls.filterMap fun c => c.purpose.sheet?

theorem buildingOf_eq (calls : List Call) :
    buildingOf calls = (calls.map Call.purpose).filterMap Purpose.sheet? := by
  rw [List.filterMap_map]
  rfl

namespace Registry

/-- Keeping a sheet puts it at the end or in the place of another one. -/
theorem sheets_put (isHost : Identity → Bool) (host : Identity) (sheet : NodeId) (r : Registry) :
    ((put isHost host sheet r).map Entry.sheet).Subperm (sheet :: r.map Entry.sheet) := by
  induction r with
  | nil => exact .refl _
  | cons e rest ih =>
    unfold put
    split
    · exact ((List.sublist_cons_self _ _).cons_cons _).subperm
    · exact ((List.subperm_cons _).2 ih).trans (List.Perm.swap ..).subperm

/-- The entries afterwards: those before, and one with the sheet, for the host or for another one
that the test accepts. -/
theorem mem_put_cases {isHost : Identity → Bool} {host : Identity} {sheet : NodeId} {r : Registry}
    {e : Entry} (h : e ∈ put isHost host sheet r) :
    e ∈ r ∨ e.sheet = sheet ∧ (e.host = host ∨ isHost e.host = true ∧ ∃ e' ∈ r, e'.host = e.host) := by
  induction r with
  | nil =>
    cases List.mem_singleton.1 h
    exact .inr ⟨rfl, .inl rfl⟩
  | cons first rest ih =>
    unfold put at h
    split at h
    · rename_i hi
      rcases List.mem_cons.1 h with rfl | h
      · exact .inr ⟨rfl, .inr ⟨hi, first, List.mem_cons_self, rfl⟩⟩
      · exact .inl (List.mem_cons_of_mem _ h)
    · rcases List.mem_cons.1 h with rfl | h
      · exact .inl List.mem_cons_self
      · rcases ih h with h | ⟨hs, hh | ⟨hi, e', he', heq⟩⟩
        · exact .inl (List.mem_cons_of_mem _ h)
        · exact .inr ⟨hs, .inl hh⟩
        · exact .inr ⟨hs, .inr ⟨hi, e', List.mem_cons_of_mem _ he', heq⟩⟩

end Registry

namespace Session

variable {σ σ' : Session} {id : RegistryId} {i j : Identity} {n : NodeId}

/-- Hosts that were made are equal or not for ever. -/
theorem Earlier.equal (h : σ.Earlier σ') (hi : σ.Has i) (hj : σ.Has j) :
    σ'.equal i j = σ.equal i j := by
  have key {i : Identity} (hi : σ.Has i) : σ'.standing i = σ.standing i := by
    cases i with
    | host id =>
      obtain ⟨added, ha⟩ := h.hosts
      simp only [standing, ha, Array.getElem?_append_left (show id < σ.hosts.size from hi)]
    | _ => rfl
  unfold Session.equal
  rw [key hi, key hj]

/-! ### Filed sheets -/

/-- The beginning of a statement files nothing new. -/
theorem filedEntries_begin (σ : Session) (action : Action Datum (List Stmt)) (id : RegistryId) :
    ((σ.begin action).session.filedEntries id).Sublist (σ.filedEntries id) := by
  have same {σ' : Session} (h : σ'.registries = σ.registries) :
      (σ'.filedEntries id).Sublist (σ.filedEntries id) := by
    unfold filedEntries
    rw [h]
  have opened (name : String) :
      ((σ.withRegistry name).1.filedEntries id).Sublist (σ.filedEntries id) := by
    rw [filedEntries_withRegistry]
  have obtained {name : String} {st : Start}
      (h : st.Amends (σ.withRegistry name).1 [(σ.withRegistry name).2]) :
      (st.session.filedEntries id).Sublist (σ.filedEntries id) := by
    refine List.Sublist.trans ?_ (opened name)
    unfold filedEntries
    rw [h.session.registries]
  have replaced (name : String) {σ₁ : Session} {entries : Registry}
      (hr : σ₁.registries = (σ.withRegistry name).1.registries)
      (he : entries.Sublist (σ₁.filedEntries (σ.withRegistry name).2)) :
      ((σ₁.setEntries (σ.withRegistry name).2 entries).filedEntries id).Sublist
        (σ.filedEntries id) := by
    have hf (id : RegistryId) : σ₁.filedEntries id = σ.filedEntries id := by
      rw [← σ.filedEntries_withRegistry name]
      unfold filedEntries
      rw [hr]
    rw [filedEntries_setEntries]
    split
    · rename_i hid
      rw [← hf, ← hid.1]
      exact he
    · rw [hf]
  cases hr : action.reaches with
  | false => exact same (σ.amends_begin hr).session.registries
  | true =>
    cases action with
    | iterate t walk iteration =>
      simp only [begin, iterate]
      split <;> exact same rfl
    | advance iteration count =>
      simp only [begin, advance]
      split <;> exact same rfl
    | drop | makeHost | dropHost => exact same rfl
    | makeRegistry name =>
      show ((σ.makeRegistry name).1.filedEntries id).Sublist _
      rw [show (σ.makeRegistry name).1.filedEntries id = _ from σ.filedEntries_push id]
    | lookup name | contains name | size name | labelRegistry name => exact opened name
    | obtain name host generator options => exact obtained (amends_obtain ..)
    | render name host generator options => exact obtained (amends_obtain ..)
    | clear name => exact replaced name rfl (List.nil_sublist _)
    | release name host =>
      simp only [begin, onRegistry, release]
      cases hrec : (σ.withRegistry name).1.record .releasingSheet host with
      | error e => exact opened name
      | ok σ₁ =>
        have hreg : σ₁.registries = (σ.withRegistry name).1.registries := by
          obtain ⟨_, _, _, -, rfl⟩ := Beside.of_record hrec
          rfl
        have kept : (σ₁.filedEntries id).Sublist (σ.filedEntries id) := by
          refine List.Sublist.trans ?_ (opened name)
          unfold filedEntries
          rw [hreg]
        simp only
        split
        · split <;> exact kept
        · exact kept
        · exact replaced name hreg
            ((Registry.erase_sublist ..).trans List.filter_sublist)
    | _ => cases hr

/-! ### One place for every sheet -/

/-- The sheets that are being built in order to be kept, and those that are filed. -/
def shelf (σ : Session) : List NodeId :=
  buildingOf σ.calls ++
    (List.range σ.registries.size).flatMap fun id => (σ.filedEntries id).map Entry.sheet

/-- The sheet of an entry was built for a host: for that of the entry, or for one that this is equal
to. -/
structure KeptFor (σ : Session) (e : Entry) (i : Identity) : Prop where
  sheet : σ.store.SheetOf e.sheet i
  made : σ.Has e.host ∧ σ.Has i
  like : i = e.host ∨ σ.equal e.host i = true

theorem KeptFor.later {e : Entry} {events : List Event} (h : σ.KeptFor e i) (he : σ.Earlier σ')
    (ht : σ.store.Trail events σ'.store) : σ'.KeptFor e i where
  sheet := h.sheet.trail ht
  made := ⟨he.has h.made.1, he.has h.made.2⟩
  like := h.like.imp_right fun hq => (he.equal h.made.1 h.made.2).trans hq

/-- Every sheet has one place, and what is filed was built for the host or for an equal one. -/
structure Shelved (σ : Session) (events : List SheetEvent) : Prop where
  single : σ.shelf.Nodup
  building : ∀ c ∈ σ.calls, ∀ id i n out, c.purpose = .register id i n out → σ.store.SheetOf n i
  filed : ∀ id, ∀ e ∈ σ.filedEntries id, ∃ i, σ.KeptFor e i ∧ .built id i e.sheet ∈ events

theorem mem_buildingOf {calls : List Call} :
    n ∈ buildingOf calls ↔ ∃ c ∈ calls, ∃ id i out, c.purpose = .register id i n out := by
  unfold buildingOf
  rw [List.mem_filterMap]
  refine exists_congr fun c => and_congr_right fun _ => ?_
  cases c.purpose with
  | register id i m out =>
    show some m = some n ↔ _
    constructor
    · rintro ⟨⟩
      exact ⟨id, i, out, rfl⟩
    · rintro ⟨_, _, _, h⟩
      cases h
      rfl
  | _ => exact ⟨nofun, fun ⟨_, _, _, h⟩ => by cases h⟩

namespace Shelved

variable {events : List SheetEvent} {deeds : List Event}

theorem lt_next (h : σ.Shelved events) (hn : n ∈ σ.shelf) : n < σ.store.next := by
  rcases List.mem_append.1 hn with hn | hn
  · obtain ⟨c, hc, id, i, out, hp⟩ := mem_buildingOf.1 hn
    exact (h.building c hc id i n out hp).there
  · obtain ⟨id, -, hn⟩ := List.mem_flatMap.1 hn
    obtain ⟨e, he, rfl⟩ := List.mem_map.1 hn
    obtain ⟨i, hk, -⟩ := h.filed id e he
    exact hk.sheet.there

theorem more (h : σ.Shelved events) (events' : List SheetEvent) : σ.Shelved (events ++ events') :=
  { h with
    filed := fun id e he => by
      obtain ⟨i, hk, hb⟩ := h.filed id e he
      exact ⟨i, hk, List.mem_append_left _ hb⟩ }

/-- With further registries that are empty, and fewer entries in the others, fewer sheets are
filed. -/
theorem filed_sublist {size size' : Nat} (hs : size ≤ size')
    (hout : ∀ id, size ≤ id → σ.filedEntries id = [])
    (hf : ∀ id, (σ'.filedEntries id).Sublist (σ.filedEntries id)) :
    ((List.range size').flatMap fun id => (σ'.filedEntries id).map Entry.sheet).Sublist
      ((List.range size).flatMap fun id => (σ.filedEntries id).map Entry.sheet) := by
  have pointwise (ids : List RegistryId) :
      (ids.flatMap fun id => (σ'.filedEntries id).map Entry.sheet).Sublist
        (ids.flatMap fun id => (σ.filedEntries id).map Entry.sheet) := by
    induction ids with
    | nil => exact .refl _
    | cons id ids ih =>
      rw [List.flatMap_cons, List.flatMap_cons]
      exact ((hf id).map _).append ih
  obtain ⟨d, rfl⟩ := Nat.exists_eq_add_of_le hs
  have hnone : ((List.range d).map (size + ·)).flatMap
      (fun id => (σ'.filedEntries id).map Entry.sheet) = [] := by
    refine List.flatMap_eq_nil_iff.2 fun id hid => ?_
    obtain ⟨x, -, rfl⟩ := List.mem_map.1 hid
    have hnil := hf (size + x)
    rw [hout _ (Nat.le_add_right _ _), List.sublist_nil] at hnil
    rw [hnil, List.map_nil]
  rw [List.range_add, List.flatMap_append, hnone, List.append_nil]
  exact pointwise _

/-- Of several lists put together, one gains an element at most. -/
theorem subperm_flatMap {f f' : RegistryId → List NodeId} {ids : List RegistryId} (hd : ids.Nodup)
    (hid : id ∈ ids) (others : ∀ x ∈ ids, x ≠ id → f' x = f x) (h : (f' id).Subperm (n :: f id)) :
    (ids.flatMap f').Subperm (n :: ids.flatMap f) := by
  induction ids with
  | nil => cases hid
  | cons x rest ih =>
    obtain ⟨hx, hd⟩ := List.nodup_cons.1 hd
    rw [List.flatMap_cons, List.flatMap_cons]
    by_cases hxid : x = id
    · subst hxid
      have hrest : rest.flatMap f' = rest.flatMap f := List.flatMap_congr fun y hy =>
        others y (List.mem_cons_of_mem _ hy) fun hyx => hx (hyx ▸ hy)
      rw [hrest]
      exact (List.subperm_append_right _).2 h
    · have hm : id ∈ rest := (List.mem_cons.1 hid).resolve_left (Ne.symm hxid)
      rw [others x List.mem_cons_self hxid]
      refine ((List.subperm_append_left _).2 (ih hd hm fun y hy => ?_)).trans
        List.perm_middle.subperm
      exact others y (List.mem_cons_of_mem _ hy)

/-- Nothing new is filed, and what is building goes on, is given up, or is new. -/
theorem next (h : σ.Shelved events) (he : σ.Earlier σ') (ht : σ.store.Trail deeds σ'.store)
    (hs : σ.registries.size ≤ σ'.registries.size)
    (hf : ∀ id, (σ'.filedEntries id).Sublist (σ.filedEntries id))
    (hb : (buildingOf σ'.calls).Sublist (buildingOf σ.calls) ∨
      ∃ n, σ.store.next ≤ n ∧ buildingOf σ'.calls = n :: buildingOf σ.calls)
    (hc : ∀ c ∈ σ'.calls, ∀ id i n out, c.purpose = .register id i n out →
      c.purpose ∈ σ.calls.map Call.purpose ∨ σ'.store.SheetOf n i) : σ'.Shelved events where
  single := by
    have hsub := filed_sublist hs
      (fun id hid => filedEntries_eq_nil (Nat.not_lt.2 hid)) hf
    rcases hb with hb | ⟨n, hn, hb⟩
    · exact h.single.sublist (hb.append hsub)
    · unfold shelf
      rw [hb, List.cons_append]
      refine List.Nodup.sublist ((List.Sublist.refl _ |>.append hsub).cons_cons n)
        (List.nodup_cons.2 ⟨fun hm => ?_, h.single⟩)
      exact Nat.not_lt.2 hn (h.lt_next hm)
  building c hm id i n out hp := by
    rcases hc c hm id i n out hp with hold | hnew
    · obtain ⟨c', hc', hp'⟩ := List.mem_map.1 hold
      exact (h.building c' hc' id i n out (hp'.trans hp)).trail ht
    · exact hnew
  filed id e hm := by
    obtain ⟨i, hk, hev⟩ := h.filed id e ((hf id).subset hm)
    exact ⟨i, hk.later he ht, hev⟩

/-- A sheet that was building is filed. -/
theorem put (h : σ.Shelved events) {c : Call} {below : List Call} {out : Output}
    (calls : σ.calls = c :: below) (purpose : c.purpose = .register id i n out)
    (hid : id < σ.registries.size) (hi : σ.Has i) :
    ({ σ.putSheet id i n with calls := below } : Session).Shelved (events ++ [.built id i n]) := by
  have hsheet := h.building c (calls ▸ List.mem_cons_self) id i n out purpose
  have hfiled (id' : RegistryId) :
      ({ σ.putSheet id i n with calls := below } : Session).filedEntries id' =
        if id = id' then (σ.entries id).put (fun j => σ.equal j i) i n
        else σ.filedEntries id' := by
    show (σ.setEntries id _).filedEntries id' = _
    rw [filedEntries_setEntries]
    simp only [hid, and_true]
  refine ⟨?_, fun c' hc' => ?_, fun id' e hm => ?_⟩
  · -- the sheet leaves its place among the calls for one in the registry
    have hput : (((σ.entries id).put (fun j => σ.equal j i) i n).map Entry.sheet).Subperm
        (n :: (σ.filedEntries id).map Entry.sheet) :=
      (Registry.sheets_put ..).trans ((List.filter_sublist.map _).cons_cons n).subperm
    have hsize : ({ σ.putSheet id i n with calls := below } : Session).registries.size =
        σ.registries.size := Array.size_setIfInBounds ..
    have hold : σ.shelf = n :: (buildingOf below ++
        (List.range σ.registries.size).flatMap fun id => (σ.filedEntries id).map Entry.sheet) := by
      have hb : buildingOf σ.calls = n :: buildingOf below := by
        rw [calls]
        exact List.filterMap_cons_some (by rw [purpose]; rfl)
      unfold shelf
      rw [hb, List.cons_append]
    have hsub : ({ σ.putSheet id i n with calls := below } : Session).shelf.Subperm σ.shelf := by
      rw [hold]
      unfold shelf
      rw [hsize]
      refine List.Subperm.trans ((List.subperm_append_left _).2 (subperm_flatMap List.nodup_range
        (List.mem_range.2 hid) (fun id' _ hne => ?_) ?_)) List.perm_middle.subperm
      · rw [hfiled, if_neg (Ne.symm hne)]
      · rw [hfiled, if_pos rfl]
        exact hput
    obtain ⟨l, hperm, hl⟩ := hsub
    exact hperm.nodup_iff.1 (h.single.sublist hl)
  · exact h.building c' (calls ▸ List.mem_cons_of_mem _ hc')
  · rw [hfiled] at hm
    have old (hm : e ∈ σ.filedEntries id') :
        ∃ j, ({ σ.putSheet id i n with calls := below } : Session).KeptFor e j ∧
          .built id' j e.sheet ∈ events ++ [.built id i n] := by
      obtain ⟨j, hk, hev⟩ := h.filed id' e hm
      exact ⟨j, ⟨hk.sheet, hk.made, hk.like⟩, List.mem_append_left _ hev⟩
    split at hm
    · rename_i heq
      subst heq
      rcases Registry.mem_put_cases hm with hm | ⟨hs, hh⟩
      · exact old (List.mem_filter.1 hm).1
      · have hev : .built id i e.sheet ∈ events ++ [.built id i n] := by
          rw [hs]
          exact List.mem_append_right _ List.mem_cons_self
        rcases hh with hh | ⟨hq, e', he', hh⟩
        · exact ⟨i, ⟨hs ▸ hsheet, ⟨hh ▸ hi, hi⟩, .inl hh.symm⟩, hev⟩
        · obtain ⟨j, hk, -⟩ := h.filed id e' (List.mem_filter.1 he').1
          exact ⟨i, ⟨hs ▸ hsheet, ⟨hh ▸ hk.made.1, hi⟩, .inr hq⟩, hev⟩
    · exact old hm

end Shelved

end Session

namespace Machine

variable {m : Machine} {events : List SheetEvent}

/-- The beginning of a statement files nothing new, in the state of the machine as well. -/
theorem filedEntries_perform {σ : Session} {tag : Tag} {action : Action Datum (List Stmt)}
    {m₀ : Machine} (hm : m₀.session = σ) (id : RegistryId) :
    ((m₀.perform tag action).session.filedEntries id).Sublist (σ.filedEntries id) := by
  subst hm
  have h := m₀.session.filedEntries_begin action id
  cases hb : m₀.session.begin action with
  | done σ' r =>
    rw [perform_done hb]
    rw [hb] at h
    exact h
  | enter σ' purpose body =>
    rw [perform_enter hb]
    rw [hb] at h
    exact h

/-- A step that keeps no new sheet files nothing new. -/
theorem filedEntries_step (hev : ∀ id i n, m.sheetEvent? ≠ some (.built id i n)) (id : RegistryId) :
    (m.step.session.filedEntries id).Sublist (m.session.filedEntries id) := by
  cases m.turn with
  | @settle tag r settled step =>
    obtain ⟨handles, saved, hk⟩ := keepResult_eq m.session tag r
    rw [step]
    unfold Machine.settle record
    rw [hk]
    simp only
    split <;> exact .refl _
  | @begin m₀ tag s settled proceeds step =>
    have h₀ : m₀.session.filedEntries id = m.session.filedEntries id := by cases proceeds <;> rfl
    rw [step, beginStmt_eq, ← h₀]
    cases he : Session.evalAction s.action m₀.session with
    | error e => exact .refl _
    | ok p =>
      obtain ⟨action, σ⟩ := p
      have hσ : σ.filedEntries id = m₀.session.filedEntries id := by
        obtain ⟨_, _, _, _, rfl⟩ := (Session.keeps_evalAction s.action).beside he
        rfl
      rw [← hσ]
      exact filedEntries_perform rfl id
  | @finish call below settled calls rest step =>
    have hp : ∀ id i n out, call.purpose ≠ .register id i n out := by
      intro id' i n out hp
      refine hev id' i n ?_
      unfold sheetEvent? task
      simp only [settled, calls, rest, hp]
      rfl
    have hr := (m.session.amends_finish hp : Start.Amends m.session [] _).session.registries
    rw [step]
    unfold finishCall Session.filedEntries
    cases hf : m.session.finish call.purpose with
    | done σ r =>
      rw [hf] at hr
      rw [show σ.registries = _ from hr]
    | enter σ purpose body =>
      rw [hf] at hr
      rw [show σ.registries = _ from hr]
  | idle settled calls steps step => rw [step]

/-- What is building after a step was so before, or was only just made as a style sheet. -/
theorem building_step (m : Machine) :
    ((buildingOf m.step.session.calls).Sublist (buildingOf m.session.calls) ∨
      ∃ n, m.session.store.next ≤ n ∧
        buildingOf m.step.session.calls = n :: buildingOf m.session.calls) ∧
    ∀ c ∈ m.step.session.calls, ∀ id i n out, c.purpose = .register id i n out →
      c.purpose ∈ m.session.calls.map Call.purpose ∨ m.step.session.store.SheetOf n i := by
  have old {c : Call} (hc : c.purpose ∈ m.session.calls.map Call.purpose) (id : RegistryId)
      (i : Identity) (n : NodeId) (out : Output) (_ : c.purpose = .register id i n out) :
      c.purpose ∈ m.session.calls.map Call.purpose ∨ m.step.session.store.SheetOf n i := .inl hc
  have below {call : Call} {rest : List Call} (calls : m.session.calls = call :: rest) :
      (buildingOf rest).Sublist (buildingOf m.session.calls) := by
    rw [calls]
    exact (List.sublist_cons_self _ _).filterMap _
  cases m.callCases with
  | same advanced =>
    refine ⟨.inl ?_, fun c hc => old (advanced.purposes ▸ List.mem_map_of_mem hc)⟩
    rw [buildingOf_eq, advanced.purposes, ← buildingOf_eq]
  | fail call rest e calls popped =>
    rw [popped]
    exact ⟨.inl (below calls),
      fun c hc => old (calls ▸ List.mem_map_of_mem (List.mem_cons_of_mem _ hc))⟩
  | ended call rest σ' r calls done session =>
    rw [session]
    exact ⟨.inl (below calls), fun c hc id i n out hp =>
      .inl (calls ▸ List.mem_map_of_mem (List.mem_cons_of_mem _ hc))⟩
  | push m₀ tag s action σ σ' purpose body proceeds eval enter settled session pushed =>
    have hσ : σ.store = m.session.store :=
      ((Session.keeps_evalAction s.action).beside eval).store.trans proceeds.store
    have hb : buildingOf m₀.session.calls = buildingOf m.session.calls := by
      rw [buildingOf_eq, proceeds.purposes, ← buildingOf_eq]
    rw [pushed]
    refine ⟨?_, fun c hc id i n out hp => ?_⟩
    · cases purpose with
      | register id i n out =>
        refine .inr ⟨n, hσ ▸ (Session.made_of_begin enter rfl).1, ?_⟩
        rw [← hb]
        exact List.filterMap_cons_some rfl
      | _ => exact .inl (hb ▸ List.Sublist.refl _)
    · rcases List.mem_cons.1 hc with rfl | hc
      · cases hp
        have hs := Session.sheetOf_of_begin enter
        rw [session]
        exact .inr hs
      · exact .inl (proceeds.purposes ▸ List.mem_map_of_mem hc)
  | turn call rest σ' purpose body calls enter settled session turned =>
    have hne : ∀ id i n out, purpose ≠ .register id i n out := by
      rintro id i n out rfl
      cases (Session.amends_of_finish enter).registry σ' _ body id enter rfl
    rw [turned]
    refine ⟨.inl ?_, fun c hc id i n out hp => ?_⟩
    · refine List.Sublist.trans ?_ (below calls)
      cases purpose with
      | register id i n out => exact absurd rfl (hne _ _ _ _)
      | _ => exact .refl _
    · rcases List.mem_cons.1 hc with rfl | hc
      · exact absurd hp (hne _ _ _ _)
      · exact .inl (calls ▸ List.mem_map_of_mem (List.mem_cons_of_mem _ hc))

/-- A new sheet is kept when the body of the call that was building it has ended. -/
theorem finish_of_built {id : RegistryId} {i : Identity} {n : NodeId}
    (h : m.sheetEvent? = some (.built id i n)) : ∃ call below out, m.task = .finish call ∧
      m.session.calls = call :: below ∧ call.purpose = .register id i n out ∧
      m.step.session = { m.session.putSheet id i n with calls := below } := by
  unfold sheetEvent? at h
  split at h
  · rename_i σ tag action htask
    cases action with
    | release name host =>
      simp only [Session.sheetEvent?] at h
      split at h
      · cases h
      · split at h <;> cases h
    | _ => cases h
  · rename_i call htask
    obtain ⟨settled, rest, below, calls⟩ := call_of_task htask
    cases hp : call.purpose with
    | register id' i' n' out =>
      rw [hp] at h
      cases h
      refine ⟨call, below, out, htask, calls, hp, ?_⟩
      rw [step_of_ended settled calls rest]
      unfold finishCall
      rw [hp]
      show { m.session.putSheet id i n with calls := m.session.calls.tail } = _
      rw [calls, List.tail_cons]
    | _ =>
      rw [hp] at h
      cases h
  · cases h

theorem shelved_step (hg : m.Grounded) (hr : m.session.Ranged) (h : m.session.Shelved events) :
    m.step.session.Shelved (events ++ m.sheetEvent?.toList) := by
  by_cases hev : ∃ id i n, m.sheetEvent? = some (.built id i n)
  · obtain ⟨id, i, n, hev⟩ := hev
    obtain ⟨call, below, out, -, calls, purpose, session⟩ := finish_of_built hev
    have hm : call ∈ m.session.calls := calls ▸ List.mem_cons_self
    have hi : i ∈ call.purpose.links := by
      rw [purpose]
      exact List.mem_cons_self
    rw [session, hev]
    exact h.put calls purpose (hr.calls call hm id (by rw [purpose]; rfl))
      (hg.session.purposes call hm i hi)
  · obtain ⟨hb, hc⟩ := m.building_step
    exact (h.next hg.step.1 m.move_step.trail (refiles_step hr).size (filedEntries_step fun id i n h =>
      hev ⟨id, i, n, h⟩) hb hc).more _

/-- In every state of a script every sheet has one place, and what is filed was built for the host
or for an equal one. -/
theorem shelved (s : Script) (k : Nat) :
    (run k (load s)).session.Shelved (sheetHistory k (load s)) := by
  induction k with
  | zero =>
    have hnil (id : RegistryId) : (load s).session.filedEntries id = [] := by
      rcases id with _ | id <;> rfl
    refine ⟨List.nodup_nil, nofun, fun id e he => ?_⟩
    rw [run_zero, hnil] at he
    cases he
  | succ k ih =>
    rw [run_step, sheetHistory_succ]
    exact shelved_step (grounded s k) (ranged s k) ih

end Machine

end RuleTree
