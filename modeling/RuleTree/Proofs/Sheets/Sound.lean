import RuleTree.Proofs.Sheets.Shelf
import RuleTree.Proofs.Tree.Origin
import RuleTree.Proofs.Tree.Visibility

/-!
# Entries are sound

* `Session.mem_lasting`, `Session.alive_of_mem_entries`: an entry whose host is alive keeps its sheet
  alive;
* `Session.not_alive_of_unlinked`: what nothing links to is dead;
* `Machine.host_of_lists`: what is listed has no link to a host of its own;
* `Session.hostOf_of_lists`, `Session.hostOf_of_sheetOf`: a sheet that is alive has the host that it
  was built for as long as that one is alive, and so have all rule sets of its tree;
* `Machine.SoundEntry`, `Machine.SoundEntries`: what is true of an entry, and of all of them;
* `Machine.soundEntries`: so it is in every state of a script;
* `Machine.hostless_sharing`: but the host of a sheet need not be that of its entry.
-/

namespace RuleTree

theorem Linked.mono {α : Type} {links : α → List α} {start start' : List α} {x : α}
    (hs : start ⊆ start') (h : Linked links start x) : Linked links start' x := by
  induction h with
  | start h => exact .start (hs h)
  | link _ hy ih => exact .link ih hy

namespace Session

variable {σ : Session} {id : RegistryId} {e : Entry} {n p c : NodeId} {i : Identity}

/-! ### Sheets are kept alive -/

/-- The more entries keep their sheets alive, the more is alive. -/
theorem has_livingWith_mono {entries entries' : List Entry} (hs : entries ⊆ entries')
    (h : (σ.livingWith entries).has i = true) : (σ.livingWith entries').has i = true :=
  has_livingWith_iff.2 <| (has_livingWith_iff.1 h).imp_right <|
    Linked.mono <| List.append_subset.2 ⟨List.subset_append_left _ _, fun _ hj =>
      List.mem_append_right _ (List.map_subset _ hs hj)⟩

theorem lasting_subset (σ : Session) (entries : List Entry) : σ.lasting entries ⊆ entries := by
  induction entries using lasting.induct σ with
  | case1 entries hlt ih =>
    unfold lasting
    rw [dif_pos hlt]
    exact List.Subset.trans ih List.filter_sublist.subset
  | case2 entries hlt =>
    unfold lasting
    rw [dif_neg hlt]
    exact List.Subset.refl _

/-- An entry lasts if its host is alive by the entries that last. -/
theorem mem_lasting {entries : List Entry} (he : e ∈ entries)
    (h : (σ.livingWith (σ.lasting entries)).has e.host = true) : e ∈ σ.lasting entries := by
  induction entries using lasting.induct σ with
  | case1 entries hlt ih =>
    unfold lasting at h ⊢
    rw [dif_pos hlt] at h ⊢
    refine ih (List.mem_filter.2 ⟨he, ?_⟩) h
    exact has_livingWith_mono
      (List.Subset.trans (σ.lasting_subset _) List.filter_sublist.subset) h
  | case2 entries hlt =>
    unfold lasting
    rwa [dif_neg hlt]

/-- The sheet of an entry is alive as long as its host is. -/
theorem alive_of_mem_entries (hid : id ∈ σ.openRegistries) (he : e ∈ σ.entries id) :
    σ.alive (.node e.sheet) = true := by
  obtain ⟨hm, hh⟩ := List.mem_filter.1 he
  have hopen : e ∈ σ.openEntries := List.mem_flatMap.2 ⟨id, hid, hm⟩
  have hlast : e ∈ σ.lasting σ.openEntries := mem_lasting hopen hh
  exact has_livingWith_iff.2 (.inr (.start (List.mem_append_right _
    (List.mem_map_of_mem (f := fun e : Entry => Identity.node e.sheet) hlast))))

/-- What nothing that lives by itself and no sheet is, and what nothing links to, is dead. -/
theorem not_alive_of_unlinked (hn : ∀ name, i ≠ .generator (.named name))
    (hr : i ∉ σ.roots ++ σ.openEntries.map fun e => .node e.sheet)
    (hs : ∀ n < σ.store.next, i ∉ σ.links (.node n))
    (hh : ∀ h < σ.hosts.size, i ∉ σ.links (.host h)) : σ.alive i = false := by
  refine Bool.eq_false_iff.2 fun ha => ?_
  rcases has_livingWith_iff.1 ha with ⟨name, hi⟩ | hl
  · exact hn name hi
  · cases hl with
    | start h =>
      refine hr ((List.append_subset.2 ⟨List.subset_append_left _ _, fun j hj => ?_⟩) h)
      exact List.mem_append_right _ (List.map_subset _ (σ.lasting_subset _) hj)
    | @link j _ _ hi =>
      cases hj : σ.number? j with
      | none =>
        rw [links_eq_nil_of_number? j hj] at hi
        cases hi
      | some k =>
        rcases number?_eq_some_iff.1 hj with ⟨rfl, hk⟩ | ⟨h, rfl, hk, -⟩
        · exact hs k hk hi
        · exact hh h hk hi

end Session

/-! ### Hosts in a tree -/

/-- What an event says of the host of the rule set that it made. -/
def Event.Hosts (s : Store) : Event → Prop
  | planted n _ host _ => (s.get n).host = host
  | sprouted n _ _ host _ => (s.get n).host = host
  | _ => True

namespace Store

variable {s t : Store} {h events : List Event} {p c : NodeId}

theorem hosts_becomes {e : Event} (hr : s.Recorded h) (hh : ∀ e ∈ h, e.Hosts s)
    (hb : s.Becomes e t) : ∀ e' ∈ h ++ [e], e'.Hosts t := by
  intro e' he'
  rcases List.mem_append.1 he' with he' | he'
  · have hold := hh e' he'
    cases e' with
    | planted n selector host o =>
      exact (hb.madeAs (hr.lt_next he' rfl)).host.trans hold
    | sprouted n q selector host fragment =>
      exact (hb.madeAs (hr.lt_next he' rfl)).host.trans hold
    | _ => trivial
  · cases List.mem_singleton.1 he'
    cases hb with
    | planted selector host o =>
      show ((s.plant selector host o).get s.next).host = host
      rw [get_plant, if_pos rfl]
      rfl
    | sprouted q selector host fragment =>
      show ((s.sprout q selector host).get s.next).host = host
      rw [get_sprout, if_pos rfl]
      rfl
    | _ => trivial

theorem hosts_trail (ht : s.Trail events t) (hr : s.Recorded h) (hh : ∀ e ∈ h, e.Hosts s) :
    ∀ e ∈ h ++ events, e.Hosts t :=
  (ht.preserves (P := fun h s => s.Recorded h ∧ ∀ e ∈ h, e.Hosts s)
    (fun ⟨hr, hh⟩ hb => ⟨hr.becomes hb, hosts_becomes hr hh hb⟩) ⟨hr, hh⟩).2

end Store

/-- In every state of a script, what is listed has no link to a host of its own. -/
theorem Machine.host_of_lists (s : Script) (k : Nat) {p c : NodeId}
    (hl : (run k (load s)).session.store.Lists p c) :
    ((run k (load s)).session.store.get c).host = none := by
  have hh := Store.hosts_trail (trail_history k (load s)) (h := []) ⟨rfl, by simp⟩ (by simp)
  obtain ⟨q, selector, f, he⟩ := (owned s k).listed p c hl
  exact hh _ he

namespace Session

variable {σ : Session} {n p c : NodeId} {i : Identity}

/-- A rule set that is listed by one that is alive, and that has no link of its own, has the same
host. -/
theorem hostOf_of_lists (hp : σ.alive (.node p) = true) (hl : σ.store.Lists p c)
    (hh : (σ.store.get c).host = none) : σ.hostOf c = σ.hostOf p := by
  have hparent : σ.parent? c = some p := by
    unfold parent?
    rw [hl.parent, Option.filter_some, if_pos hp]
  unfold hostOf
  rw [chain_eq_cons σ c, hparent, List.findSome?_cons, hh]
  rfl

/-- All rule sets in the tree of one that is alive have its host. -/
theorem hostOf_of_mem_preorder (hn : σ.alive (.node n) = true)
    (hh : ∀ p c, σ.store.Lists p c → (σ.store.get c).host = none)
    (hc : c ∈ σ.store.forest.preorder n) : σ.hostOf c = σ.hostOf n := by
  refine (Forest.preorder_closed (P := fun c => σ.alive (.node c) = true ∧ σ.hostOf c = σ.hostOf n)
    ⟨hn, rfl⟩ (fun p c hp hl => ⟨alive_of_lists hp.1 hl, ?_⟩) hc).2
  rw [hostOf_of_lists hp.1 hl (hh p c hl), hp.2]

/-- A style sheet has the host that it was built for, as long as that one is alive. -/
theorem hostOf_of_sheetOf (h : σ.store.SheetOf n i) :
    (σ.alive i = true → (σ.hostOf n).identity? = some i) ∧
      (σ.alive i = false → σ.hostOf n = .null) := by
  obtain ⟨d, hd, hi⟩ := h.host
  have hparent : σ.parent? n = none := by
    unfold parent?
    rw [h.parent]
    rfl
  have hhost : σ.hostOf n = σ.followHost d := by
    unfold hostOf
    rw [chain_eq_cons σ n, hparent, List.findSome?_cons, hd]
    rfl
  rw [hhost]
  unfold followHost
  simp only [hi]
  refine ⟨fun ha => ?_, fun ha => ?_⟩
  · rw [if_pos ha]
    exact hi
  · rw [if_neg (by simp [ha])]

end Session

/-! ### Entries -/

namespace Machine

/-- What is true of an entry of a registry after so many steps, if its sheet was built for a certain
host. -/
structure SoundEntry (s : Script) (k : Nat) (id : RegistryId) (e : Entry) (i : Identity) : Prop where
  parent : ((run k (load s)).session.store.get e.sheet).parent = none
  selector : ((run k (load s)).session.store.get e.sheet).selector = .text ""
  /-- the generator of the build ran to its end, and nothing in it failed -/
  completed : ∃ first last out body, last < k ∧
    (load s).Completed (.register id i e.sheet out) body first last
  /-- the sheet was built for the host of the entry, or for one that this is equal to -/
  like : i = e.host ∨ (run k (load s)).session.equal e.host i = true
  /-- while the host that it was built for is alive, it is the host of the whole tree -/
  host : (run k (load s)).session.alive i = true →
    ∀ n ∈ (run k (load s)).session.store.forest.preorder e.sheet,
      ((run k (load s)).session.hostOf n).identity? = some i
  /-- and after that the whole tree has no host -/
  noHost : (run k (load s)).session.alive i = false →
    ∀ n ∈ (run k (load s)).session.store.forest.preorder e.sheet,
      (run k (load s)).session.hostOf n = .null

/-- What is true of all entries after so many steps. -/
structure SoundEntries (s : Script) (k : Nat) : Prop where
  /-- every entry of a registry in use whose host is alive is sound -/
  sound : ∀ id ∈ (run k (load s)).session.openRegistries,
    ∀ e ∈ (run k (load s)).session.entries id, ∃ i, SoundEntry s k id e i
  /-- if the host of an entry is equal to no other, then it is the host of the whole tree -/
  same : ∀ id ∈ (run k (load s)).session.openRegistries,
    ∀ e ∈ (run k (load s)).session.entries id,
      (∀ i, (run k (load s)).session.equal e.host i = true → i = e.host) →
      ∀ n ∈ (run k (load s)).session.store.forest.preorder e.sheet,
        ((run k (load s)).session.hostOf n).identity? = some e.host
  /-- in the trees of all entries of all registries, no rule set occurs twice -/
  apart : ((List.range (run k (load s)).session.registries.size).flatMap fun id =>
    ((run k (load s)).session.filedEntries id).flatMap fun e =>
      (run k (load s)).session.store.forest.preorder e.sheet).Nodup

theorem completed_of_built (s : Script) (k : Nat) {id : RegistryId} {i : Identity} {n : NodeId}
    (h : .built id i n ∈ sheetHistory k (load s)) : ∃ first last out body, last < k ∧
      (load s).Completed (.register id i n out) body first last := by
  obtain ⟨last, hlast, hev⟩ := List.mem_filterMap.1 h
  obtain ⟨call, below, out, htask, calls, purpose, -⟩ := finish_of_built hev
  obtain ⟨first, body, hc⟩ := completed rfl htask
    (Purpose.lone_of_sheetEvent? (by rw [purpose]; rfl))
  exact ⟨first, last, out, body, List.mem_range.1 hlast, purpose ▸ hc⟩

/-- In every state of a script, the entries of all registries are sound. -/
theorem soundEntries (s : Script) (k : Nat) : SoundEntries s k := by
  have hs := shelved s k
  have hall (id : RegistryId) (hid : id ∈ (run k (load s)).session.openRegistries) (e : Entry)
      (he : e ∈ (run k (load s)).session.entries id) : ∃ i, SoundEntry s k id e i := by
    obtain ⟨i, hk, hev⟩ := hs.filed id e (List.mem_filter.1 he).1
    have halive := Session.alive_of_mem_entries hid he
    have htree (n : NodeId) (hn : n ∈ (run k (load s)).session.store.forest.preorder e.sheet) :=
      Session.hostOf_of_mem_preorder halive (fun p c => host_of_lists s k) hn
    obtain ⟨hlive, hdead⟩ := Session.hostOf_of_sheetOf hk.sheet
    exact ⟨i, hk.sheet.parent, hk.sheet.selector, completed_of_built s k hev, hk.like,
      fun ha n hn => by rw [htree n hn, hlive ha], fun ha n hn => by rw [htree n hn, hdead ha]⟩
  refine ⟨hall, fun id hid e he hsame => ?_, ?_⟩
  · obtain ⟨i, hi⟩ := hall id hid e he
    obtain rfl : i = e.host := hi.like.elim (fun h => h) (hsame i)
    exact hi.host (List.mem_filter.1 he).2
  · have hd := (List.nodup_append.1 hs.single).2.1
    have hroots := Store.nodup_flatMap_preorder (owned s k).single hd fun n hn => by
      obtain ⟨id, -, hn⟩ := List.mem_flatMap.1 hn
      obtain ⟨e, he, rfl⟩ := List.mem_map.1 hn
      obtain ⟨i, hk, -⟩ := hs.filed id e he
      exact hk.sheet.parent
    rw [List.flatMap_assoc] at hroots
    simpa only [List.flatMap_map] using hroots

end Machine

/-- A script with two hosts that are equal. The sheet of the first one is built while that of the
second one is being built, and then the second host is dropped. -/
def Script.sharing : Script where
  steps := [
    .mk (.makeHost "first" (.equal (.text "key"))) none none,
    .mk (.makeHost "second" (.equal (.text "key"))) none none,
    .mk (.obtain defaultRegistry (.host "second") (.inline [
      .mk (.obtain defaultRegistry (.host "first") (.inline []) []) none none]) []) none none,
    .mk (.dropHost "second") none none]
  generators := .empty
  logs := false

/-- The entry is that of the first host, which is alive, but its sheet was built for the second one,
and has no host any more. -/
theorem Machine.hostless_sharing :
    ¬ ∀ id ∈ (run 12 (load .sharing)).session.openRegistries,
      ∀ e ∈ (run 12 (load .sharing)).session.entries id,
        ((run 12 (load .sharing)).session.hostOf e.sheet).identity? = some e.host := by
  intro h
  obtain ⟨e, hfiled, hfirst, hsheet⟩ : ∃ e ∈ (run 12 (load .sharing)).session.filedEntries
      firstRegistry, e.host = .host 0 ∧ e.sheet = 0 := by decide +kernel
  have halive : (run 12 (load .sharing)).session.alive (.host 0) = true :=
    Session.alive_of_mem_roots (by decide +kernel)
  have hdead : (run 12 (load .sharing)).session.alive (.host 1) = false :=
    Session.not_alive_of_unlinked nofun (by decide +kernel) (by decide +kernel) (by decide +kernel)
  have hhistory : sheetHistory 12 (load .sharing) =
      [.built firstRegistry (.host 0) 1, .built firstRegistry (.host 1) 0] := by decide +kernel
  obtain ⟨i, hk, hev⟩ := (shelved .sharing 12).filed firstRegistry e hfiled
  obtain rfl : i = .host 1 := by simpa [hhistory, hsheet] using hev
  have hhost := h firstRegistry List.mem_cons_self e
    (List.mem_filter.2 ⟨hfiled, hfirst ▸ halive⟩)
  rw [(Session.hostOf_of_sheetOf hk.sheet).2 hdead] at hhost
  cases hhost

end RuleTree
