import RuleTree.Reach
import RuleTree.Session

/-!
# What is alive

Rule sets refer to parents and hosts weakly: the link does not keep them alive, and once they are
dead it leads nowhere.

* `Session.roots`: what lives by itself: what is there for ever, and what handles, saved results,
  names of hosts, calls in progress and iterations stand for;
* `Session.links`: what an object keeps alive: a rule set its children, its options and what its
  selector refers to, a host its key;
* `Session.openEntries`, `Session.lasting`: the entries of all registries in use, and those of them
  whose hosts are alive; each keeps its style sheet alive;
* `Living`, `Session.livingWith`, `Session.has_livingWith_iff`: what is alive if some entries keep
  their style sheets alive;
* `Session.living`, `Session.alive`: everything that is alive;
* `Session.entries`: the entries of a registry whose hosts are alive;
* `Session.chain`: a rule set and its ancestors, up to the first one that is dead;
* `Session.parent?`, `Session.hostOf`: where the weak links lead;
* `Session.sees`, `Session.seesAbove`: whether a custom property is visible: defined by a rule set
  of the chain, and by one that stands above.

A style sheet may keep alive the very host that it is kept for. So an entry lasts unless its host is
dead although all entries that last are taken to keep their sheets alive.
-/

namespace RuleTree

namespace Store

/-- A rule set and its ancestors as far as they are alive, the nearest first. -/
def chain (s : Store) (alive : NodeId → Bool) (n : NodeId) : List NodeId :=
  n :: match _h : (s.get n).parent with
    | some p => if alive p then chain s alive p else []
    | none => []
termination_by n
decreasing_by exact Forest.lt_of_parent _h

theorem chain_eq (s : Store) (alive : NodeId → Bool) (n : NodeId) :
    s.chain alive n =
      n :: (((s.get n).parent.filter alive).map (s.chain alive)).getD [] := by
  rw [chain]
  split
  · rename_i p hp
    by_cases ha : alive p <;> simp [hp, Option.filter, ha]
  · rename_i hp
    simp [hp]

end Store

namespace Session

/-- What lives by itself. -/
def roots (σ : Session) : List Identity :=
  OptionSet.permanent
    ++ σ.handles.values.map .node
    ++ σ.saved.values.flatMap Datum.identities
    ++ σ.hostNames.values.map .host
    ++ σ.calls.flatMap Call.links
    ++ σ.iterations.values.flatMap Iteration.identities

/-- What an object keeps alive. -/
def links (σ : Session) : Identity → List Identity
  | .node n => if n < σ.store.next then σ.store.links n else []
  | .host h =>
    match σ.hosts[h]? with
    | some ⟨_, .equal key, _, _⟩ => key.identities
    | _ => []
  | _ => []

/-- The numbers of the objects that keep others alive: rule sets, and hosts behind them. -/
def number? (σ : Session) : Identity → Option Nat
  | .node n => if n < σ.store.next then some n else none
  | .host h => if h < σ.hosts.size then some (σ.store.next + h) else none
  | _ => none

theorem number?_eq_some_iff {σ : Session} {i : Identity} {k : Nat} :
    σ.number? i = some k ↔
      (i = .node k ∧ k < σ.store.next) ∨
        ∃ h, i = .host h ∧ h < σ.hosts.size ∧ σ.store.next + h = k := by
  cases i with
  | node n => simpa [number?] using ⟨fun h => h.2 ▸ ⟨rfl, h.1⟩, fun h => ⟨h.1 ▸ h.2, h.1⟩⟩
  | host h => simp [number?]
  | generator g => simp [number?]
  | made stamp => simp [number?]

theorem number?_inj {σ : Session} (i j : Identity) (k : Nat) (hi : σ.number? i = some k)
    (hj : σ.number? j = some k) : i = j := by
  rcases number?_eq_some_iff.1 hi with ⟨rfl, hn⟩ | ⟨h, rfl, _, hk⟩ <;>
    rcases number?_eq_some_iff.1 hj with ⟨rfl, hm⟩ | ⟨h', rfl, _, hk'⟩
  · rfl
  · exact absurd hn (hk' ▸ Nat.not_lt.2 (Nat.le_add_right _ _))
  · exact absurd hm (hk ▸ Nat.not_lt.2 (Nat.le_add_right _ _))
  · exact congrArg _ (Nat.add_left_cancel (hk.trans hk'.symm))

theorem number?_lt {σ : Session} (i : Identity) (k : Nat) (h : σ.number? i = some k) :
    k < σ.store.next + σ.hosts.size := by
  rcases number?_eq_some_iff.1 h with ⟨_, hn⟩ | ⟨_, _, hh, rfl⟩
  · exact Nat.lt_add_right _ hn
  · exact Nat.add_lt_add_left hh _

theorem links_eq_nil_of_number? {σ : Session} (i : Identity) (h : σ.number? i = none) :
    σ.links i = [] := by
  cases i with
  | node n =>
    have hn : ¬ n < σ.store.next := fun hn => by simp [number?, hn] at h
    exact if_neg hn
  | host k =>
    have hk : σ.hosts.size ≤ k := by simpa [number?] using h
    simp [links, Array.getElem?_eq_none hk]
  | generator g => rfl
  | made stamp => rfl

/-- What is alive: what it starts from, and everything, which is only sought for if need be. -/
structure Living where
  start : List Identity
  all : Thunk (List Identity)

/-- Whether an object is alive. Generators named by the script always are. -/
def Living.has (living : Living) : Identity → Bool
  | .generator (.named _) => true
  | i => living.start.contains i || living.all.get.contains i

/-- Everything that is alive if some entries keep their style sheets alive. -/
def livingWith (σ : Session) (entries : List Entry) : Living :=
  let start := σ.roots ++ entries.map fun e => .node e.sheet
  ⟨start, .mk fun _ => reachable σ.links σ.number? (σ.store.next + σ.hosts.size) start⟩

/-- Apart from the generators that the script names, what is alive is what is linked. -/
theorem has_livingWith_iff {σ : Session} {entries : List Entry} {i : Identity} :
    (σ.livingWith entries).has i = true ↔
      (∃ name, i = .generator (.named name)) ∨
        Linked σ.links (σ.roots ++ entries.map fun e => .node e.sheet) i := by
  have h : ∀ j, ((σ.livingWith entries).start.contains j ||
      (σ.livingWith entries).all.get.contains j) = true ↔
        Linked σ.links (σ.roots ++ entries.map fun e => .node e.sheet) j := by
    intro j
    rw [Bool.or_eq_true, List.contains_iff_mem, List.contains_iff_mem]
    have hr : j ∈ (σ.livingWith entries).all.get ↔
        Linked σ.links (σ.roots ++ entries.map fun e => .node e.sheet) j :=
      mem_reachable_iff number?_inj links_eq_nil_of_number? number?_lt
    exact ⟨fun h => h.elim .start hr.1, fun h => .inr (hr.2 h)⟩
  cases i with
  | generator g =>
    cases g with
    | named name => simp [Living.has]
    | inline id => simpa [Living.has] using h (.generator (.inline id))
  | host id => simpa [Living.has] using h (.host id)
  | node id => simpa [Living.has] using h (.node id)
  | made stamp => simpa [Living.has] using h (.made stamp)

/-- The registries that are in use: the first one, those that go by a name, and those at work. -/
def openRegistries (σ : Session) : List RegistryId :=
  firstRegistry :: σ.registryNames.values ++ σ.calls.filterMap fun c => c.purpose.registry?

/-- Everything that was entered in a registry in use and not forgotten since. -/
def openEntries (σ : Session) : List Entry :=
  σ.openRegistries.flatMap fun id => σ.registries[id]?.getD []

/-- The entries whose hosts are alive if all of them keep their style sheets alive. -/
def supported (σ : Session) (entries : List Entry) : List Entry :=
  let living := σ.livingWith entries
  entries.filter fun e => living.has e.host

/-- The entries that last among some: those whose hosts are alive if none but the entries that last
keep their style sheets alive. -/
def lasting (σ : Session) (entries : List Entry) : List Entry :=
  if _h : (σ.supported entries).length < entries.length then lasting σ (σ.supported entries)
  else entries
termination_by entries.length
decreasing_by exact _h

/-- Everything that is alive. -/
def living (σ : Session) : Living := σ.livingWith (σ.lasting σ.openEntries)

/-- Whether an object is alive. -/
def alive (σ : Session) (i : Identity) : Bool := σ.living.has i

/-- The entries of a registry whose hosts are alive. -/
def entries (σ : Session) (id : RegistryId) : Registry :=
  let living := σ.living
  (σ.registries[id]?.getD []).filter fun e => living.has e.host

/-- A rule set and its ancestors, up to the first one that is dead. -/
def chain (σ : Session) (n : NodeId) : List NodeId :=
  let living := σ.living
  σ.store.chain (fun m => living.has (.node m)) n

/-- The parent of a rule set, if it had one and that one is alive. -/
def parent? (σ : Session) (n : NodeId) : Option NodeId :=
  (σ.store.get n).parent.filter fun p => σ.alive (.node p)

/-- Where the link to a host leads. -/
def followHost (σ : Session) (host : Datum) : Datum :=
  match host.identity? with
  | some i => if σ.alive i then host else .null
  | none => host

/-- The host of a rule set: that of its own link, dead or not, or else that of its parent. -/
def hostOf (σ : Session) (n : NodeId) : Datum :=
  (((σ.chain n).findSome? fun m => (σ.store.get m).host).map σ.followHost).getD .null

/-- Whether a custom property is visible from a rule set. -/
def sees (σ : Session) (n : NodeId) (name : String) : Bool :=
  (σ.chain n).any fun m => (σ.store.get m).scope.contains name

/-- A reference to a custom property that is visible from a rule set. -/
def reference (σ : Session) (n : NodeId) (name : String) : Except Error String :=
  if σ.sees n name then .ok ("var(--" ++ name ++ ")") else .error (.undefinedReference name)

theorem chain_eq_cons (σ : Session) (n : NodeId) :
    σ.chain n = n :: ((σ.parent? n).map σ.chain).getD [] := Store.chain_eq ..

theorem parent_of_parent? {σ : Session} {n p : NodeId} (h : σ.parent? n = some p) :
    (σ.store.get n).parent = some p := (Option.filter_eq_some_iff.1 h).1

/-- Whether a custom property is visible from above a rule set. -/
def seesAbove (σ : Session) (n : NodeId) (name : String) : Bool :=
  ((σ.parent? n).map (σ.sees · name)).getD false

theorem seesAbove_of_root {σ : Session} {n : NodeId} (h : σ.parent? n = none) (name : String) :
    σ.seesAbove n name = false := by
  unfold seesAbove
  rw [h]
  rfl

theorem seesAbove_of_parent {σ : Session} {n p : NodeId} (h : σ.parent? n = some p)
    (name : String) : σ.seesAbove n name = σ.sees p name := by
  unfold seesAbove
  rw [h]
  rfl

theorem sees_eq (σ : Session) (n : NodeId) (name : String) :
    σ.sees n name = ((σ.store.get n).scope.contains name || σ.seesAbove n name) := by
  unfold sees seesAbove
  rw [chain_eq_cons, List.any_cons]
  cases σ.parent? n <;> rfl

end Session

end RuleTree
