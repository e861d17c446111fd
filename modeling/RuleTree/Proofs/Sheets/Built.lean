import RuleTree.Proofs.References.Runs
import RuleTree.Proofs.Sheets.Cached

/-!
# Sheets that are built

* `Store.SheetOf`: a rule set that was made as the style sheet of a host; `Store.SheetOf.trail`: such
  a one it remains;
* `Session.purpose_of_launch`: a generator is run for what it was to be run for;
* `Session.enter_of_obtain`: the two ways to come to the style sheet of a host;
* `Session.sheetOf_of_obtain`, `Session.sheetOf_of_create`: a rule set that is built in order to be
  kept is made so;
* `Session.sheetOf_of_begin`: the same for any statement, for no other one builds such rule sets.
-/

namespace RuleTree

/-- Made as the style sheet of a host: without parent, with the empty selector, and with a link to
the host. -/
structure Store.SheetOf (s : Store) (n : NodeId) (i : Identity) : Prop where
  there : n < s.next
  parent : (s.get n).parent = none
  selector : (s.get n).selector = .text ""
  host : ∃ d, (s.get n).host = some d ∧ d.identity? = some i

namespace Store

variable {s t : Store} {n : NodeId} {i : Identity}

theorem SheetOf.trail {events : List Event} (h : s.SheetOf n i) (ht : s.Trail events t) :
    t.SheetOf n i := by
  have hm := ht.madeAs h.there
  exact ⟨Nat.lt_of_lt_of_le h.there ht.next_le, hm.parent.trans h.parent,
    hm.selector.trans h.selector, by rw [hm.host]; exact h.host⟩

theorem sheetOf_plant (s : Store) {d : Datum} (hd : d.identity? = some i) (o : OptionSet) :
    (s.plant (.text "") (Session.givenHost d) o).SheetOf s.next i := by
  have hn : d.isNull = false := by cases d <;> first | rfl | cases hd
  refine ⟨by simp, ?_, ?_, d, ?_, hd⟩ <;> rw [get_plant, if_pos rfl]
  · rfl
  · rfl
  · show (if d.isNull then none else some d) = some d
    rw [if_neg (by simp [hn])]

end Store

namespace Session

variable {σ σ' : Session} {id : RegistryId} {i j : Identity} {n : NodeId}

theorem identity?_of_asHost {host : Datum} (h : σ.asHost host = .ok i) : host.identity? = some i := by
  unfold asHost at h
  split at h
  · cases h
  · split at h
    · cases h
    · rename_i hi
      split at h
      · cases h
        exact hi
      · cases h

/-- What a generator is run for is what it was to be run for. -/
theorem purpose_of_launch {purpose purpose' : Purpose} {generator : Datum} {body : List Stmt}
    (h : σ.launch purpose generator n = .enter σ' purpose' body) :
    purpose' = purpose ∧ ∃ events, σ.store.Trail events σ'.store := by
  unfold launch at h
  split at h
  · rename_i hg
    cases h
    exact ⟨rfl, _, (turns_of_gives hg).trail⟩
  · cases h
  · cases h
    exact ⟨rfl, [], .nil _⟩

theorem sheetOf_of_buildRoot {host generator : Datum} {options : Table Datum} {out out' : Output}
    {body : List Stmt} {registry : RegistryId} (hi : host.identity? = some i)
    (h : σ.buildRoot (.text "") host generator options (fun n => .register registry i n out) =
      .enter σ' (.register id j n out') body) : σ'.store.SheetOf n j := by
  unfold buildRoot at h
  split at h
  · cases hm : OptionSet.merge (optionsDatum options) with
    | error e => rw [hm] at h; cases h
    | ok o =>
      simp only [hm] at h
      generalize hs : σ.store.plant (.text "") (givenHost host) o = store at h
      have hsheet : store.SheetOf σ.store.next i := hs ▸ σ.store.sheetOf_plant hi o
      cases hr : ({ σ with store } : Session).record .generating (store.get σ.store.next).selector with
      | error e =>
        rw [fill_of_error hr] at h
        cases h
      | ok σ₁ =>
        rw [fill_of_ok hr] at h
        obtain ⟨hp, events, ht⟩ := purpose_of_launch h
        cases hp
        rw [show σ₁.store = store from (Beside.of_record hr).store] at ht
        exact hsheet.trail ht
  · cases h

/-- The style sheet of a host is entered by resetting it, or by building it in order to be kept. -/
theorem enter_of_obtain {host generator : Datum} {options : Table Datum} {out : Output}
    {purpose : Purpose} {body : List Stmt}
    (h : σ.obtain id host generator options out = .enter σ' purpose body) :
    (∃ (σ₁ : Session) (sheet : NodeId),
      σ₁.reset sheet (some id) out generator = .enter σ' purpose body) ∨
    ∃ (σ₁ : Session) (i : Identity), host.identity? = some i ∧
      σ₁.buildRoot (.text "") host generator options (fun n => .register id i n out) =
        .enter σ' purpose body := by
  unfold obtain at h
  split at h
  · cases h
  split at h
  · cases hh : σ.asHost host with
    | error e => rw [hh] at h; cases h
    | ok i =>
      simp only [hh] at h
      cases hs : σ.sheet? id i with
      | some sheet =>
        simp only [hs] at h
        cases hr : σ.record .resettingSheet host with
        | error e => rw [hr] at h; cases h
        | ok σ₁ =>
          rw [hr] at h
          exact .inl ⟨σ₁, sheet, h⟩
      | none =>
        simp only [hs] at h
        cases hr : σ.record .buildingSheet host with
        | error e => rw [hr] at h; cases h
        | ok σ₁ =>
          simp only [hr] at h
          split at h
          · cases h
          · exact .inr ⟨σ₁, i, identity?_of_asHost hh, h⟩
  · cases h

theorem sheetOf_of_obtain {registry : RegistryId} {host generator : Datum} {options : Table Datum}
    {out out' : Output} {body : List Stmt}
    (h : σ.obtain registry host generator options out = .enter σ' (.register id j n out') body) :
    σ'.store.SheetOf n j := by
  rcases enter_of_obtain h with ⟨_, _, hr⟩ | ⟨_, _, hi, hb⟩
  · cases purpose_of_reset hr
  · exact sheetOf_of_buildRoot hi hb

theorem sheetOf_of_createWith {host first second : Datum} {options : Table Datum} {out : Output}
    {body : List Stmt}
    (h : σ.createWith host first second options = .enter σ' (.register id j n out) body) :
    σ'.store.SheetOf n j := by
  have built {generator : Datum} {options : Table Datum}
      (h : σ.build (.text Combinator.root.token) generator none options .css =
        .enter σ' (.register id j n out) body) : False := by
    cases (amends_build σ _ generator none options .css : Start.Amends σ [] _).registry σ' _ body id h rfl
  unfold createWith at h
  split at h
  · split at h
    · exact sheetOf_of_obtain h
    · cases h
  · split at h
    · exact sheetOf_of_obtain h
    · split at h
      · exact (built h).elim
      · cases h

theorem sheetOf_of_create {arguments : List Datum} {host : Datum} {options : Table Datum}
    {out : Output} {body : List Stmt}
    (h : σ.create arguments host options = .enter σ' (.register id j n out) body) :
    σ'.store.SheetOf n j := by
  unfold create at h
  split at h
  · cases h
  rcases arguments with _ | ⟨first, _ | ⟨second, _ | ⟨third, rest⟩⟩⟩
  · cases h
  · exact sheetOf_of_createWith h
  · exact sheetOf_of_createWith h
  · cases h

theorem enter_of_onNode {t : Target} {act : NodeId → Start} {purpose : Purpose} {body : List Stmt}
    (h : σ.onNode t act = .enter σ' purpose body) : ∃ n, act n = .enter σ' purpose body := by
  unfold onNode at h
  split at h
  · exact ⟨_, h⟩
  · cases h

theorem changeStore_ne_enter (store : Except Error Store) (result : Store → Result)
    (purpose : Purpose) (body : List Stmt) :
    σ.changeStore store result ≠ .enter σ' purpose body := by
  cases store <;> nofun

/-- A rule set that is built in order to be kept is made as the style sheet of the host. -/
theorem sheetOf_of_begin {action : Action Datum (List Stmt)} {out : Output} {body : List Stmt}
    (h : σ.begin action = .enter σ' (.register id j n out) body) : σ'.store.SheetOf n j := by
  -- nothing else is at work on a registry
  have none (ha : (σ.begin action).Amends σ []) : σ'.store.SheetOf n j := by
    cases ha.registry σ' _ body id h rfl
  cases action with
  | select t method argument generator => exact none (amends_onNode fun n => amends_callMethod ..)
  | reset t generator =>
    exact none (amends_onNode fun n => amends_reset σ n Option.none .node generator)
  | read t facet => exact none (amends_read ..)
  | build selector generator host options => exact none (amends_build ..)
  | construct selector generator host options parent => exact none (amends_construct ..)
  | create arguments host options => exact sheetOf_of_create h
  | obtain name host generator options => exact sheetOf_of_obtain h
  | render name host generator options => exact sheetOf_of_obtain h
  | write | assign | define | setOption =>
    obtain ⟨n, h⟩ := enter_of_onNode h
    exact absurd h (changeStore_ne_enter _ _ _ _)
  | setScope | check | var =>
    obtain ⟨n, h⟩ := enter_of_onNode h
    cases h
  | iterate t walk iteration =>
    simp only [begin, iterate] at h
    split at h <;> cases h
  | advance iteration count =>
    simp only [begin, advance] at h
    split at h <;> cases h
  | release name host =>
    simp only [begin, onRegistry, release] at h
    split at h
    · cases h
    · split at h
      · split at h <;> cases h
      · cases h
      · cases h
  | _ => cases h

end Session

end RuleTree
