import RuleTree.Proofs.History.Frame
import RuleTree.Proofs.Scopes.Stores
import RuleTree.Proofs.Scopes.Varying
import RuleTree.Session.Sheets

/-!
# Sessions of two runs

* `Host.Tallies`, `Purpose.Tallies`, `Call.Tallies`, `TraceEntry.Tallies`: what sessions hold, the
  same but for numbers, for values that are passed to definitions, and for scopes that are told;
* `Matching.Counts`: numbers that stand for each other were given out, and bodies that do are the
  same but for such values;
* `Session.Tallies`: sessions that hold the same but for all this;
* `Session.Tallies.newStamp`, `Session.Tallies.newGenerator`, `Session.Tallies.beside`: they stay so
  when numbers are given out in both, or in either.
-/

namespace RuleTree

variable {μ ν : Matching}

/-! ### What sessions hold -/

/-- Being the same host but for numbers in its key. -/
structure Host.Tallies (μ : Matching) (h h' : Host) : Prop where
  name : h.name = h'.name
  kind : HostKind.Rel (Datum.Tallies μ) h.kind h'.kind
  like : h.like = h'.like
  hasHash : h.hasHash = h'.hasHash

/-- Being the same style sheet of hosts that stand for each other. -/
structure Entry.Tallies (μ : Matching) (e e' : Entry) : Prop where
  host : e.host.Tallies μ e'.host
  sheet : e.sheet = e'.sheet

/-- Being the same purpose but for numbers. -/
inductive Purpose.Tallies (μ : Matching) : Purpose → Purpose → Prop
  | select (child : NodeId) {f f' : Datum} {c c' : Option Datum} (fragment : f.Tallies μ f')
    (className : Option.Rel (Datum.Tallies μ) c c') :
    Tallies μ (.select child f c) (.select child f' c')
  | build (n : NodeId) (out : Output) : Tallies μ (.build n out) (.build n out)
  | reset (n : NodeId) (registry : Option RegistryId) (out : Output) :
    Tallies μ (.reset n registry out) (.reset n registry out)
  | register (registry : RegistryId) {i i' : Identity} (host : i.Tallies μ i') (n : NodeId)
    (out : Output) : Tallies μ (.register registry i n out) (.register registry i' n out)
  | name (n : NodeId) {k k' c c' : Datum} {g g' : Option Datum} (kind : k.Tallies μ k')
    (generator : Option.Rel (Datum.Tallies μ) g g') (callee : c.Tallies μ c') :
    Tallies μ (.name n k g c) (.name n k' g' c')
  | probe (n : NodeId) {c c' : Datum} (callee : c.Tallies μ c') (listed : List (String × Picture))
    (name : String) (rest : List String) :
    Tallies μ (.probe n c listed name rest) (.probe n c' listed name rest)
  | attempt : Tallies μ .attempt .attempt

/-- Being the same call but for numbers and for values that are passed to definitions. -/
structure Call.Tallies (μ : Matching) (c c' : Call) : Prop where
  purpose : c.purpose.Tallies μ c'.purpose
  tag : c.tag = c'.tag
  rest : Body.Varies c.rest c'.rest
  index : c.index = c'.index
  held : List.Forall₂ (Identity.Tallies μ) c.held c'.held

/-- Telling the same, or scopes in which the names are the same. -/
inductive TraceEntry.Tallies : TraceEntry → TraceEntry → Prop
  | same (e : TraceEntry) : Tallies e e
  | scope (path : Path) {es es' : List (String × String)}
    (names : es.map Prod.fst = es'.map Prod.fst) :
    Tallies ⟨path, .ok (.record [("scope", scopePicture es)])⟩
      ⟨path, .ok (.record [("scope", scopePicture es')])⟩

theorem HostKind.Rel.mono {α β : Type} {r r' : α → β → Prop} {k : HostKind α} {k' : HostKind β}
    (h : HostKind.Rel r k k') (hr : ∀ a b, r a b → r' a b) : HostKind.Rel r' k k' := by
  cases h with
  | equal h => exact .equal (hr _ _ h)
  | _ => constructor

theorem Host.Tallies.mono (hle : μ.Le ν) {h h' : Host} (hh : h.Tallies μ h') : h.Tallies ν h' :=
  { hh with kind := hh.kind.mono fun _ _ => Datum.Tallies.mono hle }

theorem Entry.Tallies.mono (hle : μ.Le ν) {e e' : Entry} (h : e.Tallies μ e') : e.Tallies ν e' :=
  ⟨h.host.mono hle, h.sheet⟩

theorem Purpose.Tallies.mono (hle : μ.Le ν) {p p' : Purpose} (h : p.Tallies μ p') :
    p.Tallies ν p' := by
  have option {a b : Option Datum} (h : Option.Rel (Datum.Tallies μ) a b) :
      Option.Rel (Datum.Tallies ν) a b := h.mono fun _ _ => Datum.Tallies.mono hle
  cases h with
  | select child fragment className => exact .select child (fragment.mono hle) (option className)
  | build n out => exact .build n out
  | reset n registry out => exact .reset n registry out
  | register registry host n out => exact .register registry (host.mono hle) n out
  | name n kind generator callee =>
    exact .name n (kind.mono hle) (option generator) (callee.mono hle)
  | probe n callee listed name rest => exact .probe n (callee.mono hle) listed name rest
  | attempt => exact .attempt

theorem Call.Tallies.mono (hle : μ.Le ν) {c c' : Call} (h : c.Tallies μ c') : c.Tallies ν c' :=
  { h with
    purpose := h.purpose.mono hle
    held := h.held.imp fun _ _ => Identity.Tallies.mono hle }

namespace Purpose.Tallies

variable {p p' : Purpose}

theorem subject? (h : p.Tallies μ p') (hs : μ.stamp 1 1) :
    Option.Rel (Datum.Tallies μ) p.subject? p'.subject? := by
  cases h with
  | name n kind => exact .some kind
  | probe => exact .some (.kind _ hs)
  | attempt => exact .none
  | _ => exact .some (.node _)

theorem registry? (h : p.Tallies μ p') : p.registry? = p'.registry? := by cases h <;> rfl

theorem links (h : p.Tallies μ p') :
    List.Forall₂ (Identity.Tallies μ) p.links p'.links := by
  have option {a b : Option Datum} (h : Option.Rel (Datum.Tallies μ) a b) :
      List.Forall₂ (Identity.Tallies μ) (a.toList.flatMap Datum.identities)
        (b.toList.flatMap Datum.identities) :=
    List.rel_flatMap h.toList fun _ _ hd => hd.identities
  cases h with
  | select child fragment className =>
    exact .cons (.node _) (List.rel_append fragment.identities (option className))
  | register registry host n out => exact .cons host (.cons (.node _) .nil)
  | name n kind generator callee =>
    exact .cons (.node _)
      (List.rel_append (List.rel_append kind.identities (option generator)) callee.identities)
  | probe n callee => exact .cons (.node _) callee.identities
  | attempt => exact .nil
  | _ => exact .cons (.node _) .nil

end Purpose.Tallies

/-! ### Sessions -/

/-- Matching numbers that were given out, and bodies that are the same but for values that are
passed to definitions. The naming rule and the sample kind of every session stand for themselves. -/
structure Matching.Counts (μ : Matching) (stamps stamps' : Stamp)
    (bodies bodies' : Array (List Stmt)) : Prop where
  oneToOne : μ.OneToOne
  lt {s t : Stamp} : μ.stamp s t → s < stamps ∧ t < stamps'
  bodies {i j : Nat} : μ.inline i j →
    ∃ b b', bodies[i]? = some b ∧ bodies'[j]? = some b' ∧ Body.Varies b b'
  naming : μ.stamp 0 0
  sample : μ.stamp 1 1

/-- Holding the same but for numbers, for values that are passed to definitions, and for the values
in scopes. -/
structure Session.Tallies (μ : Matching) (σ σ' : Session) : Prop where
  counts : μ.Counts σ.stamps σ'.stamps σ.bodies σ'.bodies
  store : σ.store.Tallies μ σ'.store
  generators : σ.generators.Rel Body.Varies σ'.generators
  hosts : Rows (Host.Tallies μ) σ.hosts σ'.hosts
  hostNames : σ.hostNames = σ'.hostNames
  registries : Rows (List.Forall₂ (Entry.Tallies μ)) σ.registries σ'.registries
  registryNames : σ.registryNames = σ'.registryNames
  iterations : σ.iterations.Rel (Iteration.Tallies μ) σ'.iterations
  handles : σ.handles = σ'.handles
  saved : σ.saved.Rel (Datum.Tallies μ) σ'.saved
  calls : List.Forall₂ (Call.Tallies μ) σ.calls σ'.calls
  trace : Rows TraceEntry.Tallies σ.trace σ'.trace
  log : σ.log.isSome = σ'.log.isSome

namespace Session.Tallies

variable {σ σ' σ₁ σ₁' : Session}

/-- With more numbers that stand for each other. -/
theorem grow (h : σ.Tallies μ σ') (hle : μ.Le ν) {stamps stamps' : Stamp}
    {bodies bodies' : Array (List Stmt)} (hc : ν.Counts stamps stamps' bodies bodies') :
    Session.Tallies ν { σ with stamps, bodies }
      { σ' with stamps := stamps', bodies := bodies' } where
  counts := hc
  store := h.store.mono hle
  generators := h.generators
  hosts := h.hosts.mono fun _ _ => Host.Tallies.mono hle
  hostNames := h.hostNames
  registries := h.registries.mono fun _ _ hr => hr.imp fun _ _ => Entry.Tallies.mono hle
  registryNames := h.registryNames
  iterations := h.iterations.mono fun _ _ => Iteration.Tallies.mono hle
  handles := h.handles
  saved := h.saved.mono fun _ _ => Datum.Tallies.mono hle
  calls := h.calls.imp fun _ _ => Call.Tallies.mono hle
  trace := h.trace
  log := h.log

/-- Two numbers that were not given out stand for each other if no others stand for either. -/
theorem iff_of_lt {k k' s t : Nat} (h : s < k ∧ t < k') : s = k ↔ t = k' :=
  ⟨fun e => absurd e (Nat.ne_of_lt h.1), fun e => absurd e (Nat.ne_of_lt h.2)⟩

/-- A number that is given out in both sessions stands for the other one. -/
theorem newStamp (h : σ.Tallies μ σ') : ∃ ν, μ.Le ν ∧ ν.stamp σ.stamps σ'.stamps ∧
    Session.Tallies ν { σ with stamps := σ.stamps + 1 } { σ' with stamps := σ'.stamps + 1 } := by
  let ν : Matching := ⟨fun s t => μ.stamp s t ∨ s = σ.stamps ∧ t = σ'.stamps, μ.inline⟩
  have hle : μ.Le ν := ⟨.inl, id⟩
  refine ⟨ν, hle, .inr ⟨rfl, rfl⟩, h.grow hle ⟨⟨?_, h.counts.oneToOne.inline⟩, ?_, h.counts.bodies,
    .inl h.counts.naming, .inl h.counts.sample⟩⟩
  -- the new pair clashes with no other, since those have smaller numbers on both sides
  · rintro s t s' t' (hs | ⟨rfl, rfl⟩) (hs' | ⟨rfl, rfl⟩)
    · exact h.counts.oneToOne.stamp hs hs'
    · exact iff_of_lt (h.counts.lt hs)
    · rw [eq_comm, iff_of_lt (h.counts.lt hs'), eq_comm]
    · exact ⟨fun _ => rfl, fun _ => rfl⟩
  · rintro s t (hs | ⟨rfl, rfl⟩)
    · exact (h.counts.lt hs).imp Nat.lt_succ_of_lt Nat.lt_succ_of_lt
    · exact ⟨Nat.lt_succ_self _, Nat.lt_succ_self _⟩

/-- Generators that are written in place in both runs stand for each other. -/
theorem newGenerator (h : σ.Tallies μ σ') {body body' : List Stmt} (hb : Body.Varies body body') :
    ∃ ν, μ.Le ν ∧ ν.inline σ.bodies.size σ'.bodies.size ∧
      Session.Tallies ν { σ with bodies := σ.bodies.push body }
        { σ' with bodies := σ'.bodies.push body' } := by
  let ν : Matching := ⟨μ.stamp, fun i j => μ.inline i j ∨ i = σ.bodies.size ∧ j = σ'.bodies.size⟩
  have hle : μ.Le ν := ⟨id, .inl⟩
  have lt {i j : Nat} (hi : μ.inline i j) : i < σ.bodies.size ∧ j < σ'.bodies.size := by
    obtain ⟨b, b', hb, hb', -⟩ := h.counts.bodies hi
    exact ⟨(Array.getElem?_eq_some_iff.1 hb).1, (Array.getElem?_eq_some_iff.1 hb').1⟩
  refine ⟨ν, hle, .inr ⟨rfl, rfl⟩, h.grow hle ⟨⟨h.counts.oneToOne.stamp, ?_⟩, h.counts.lt, ?_,
    h.counts.naming, h.counts.sample⟩⟩
  · rintro i j i' j' (hi | ⟨rfl, rfl⟩) (hi' | ⟨rfl, rfl⟩)
    · exact h.counts.oneToOne.inline hi hi'
    · exact iff_of_lt (lt hi)
    · rw [eq_comm, iff_of_lt (lt hi'), eq_comm]
    · exact ⟨fun _ => rfl, fun _ => rfl⟩
  · rintro i j (hi | ⟨rfl, rfl⟩)
    · obtain ⟨b, b', h₁, h₂, hv⟩ := h.counts.bodies hi
      refine ⟨b, b', ?_, ?_, hv⟩
      · rw [Array.getElem?_push, if_neg (Nat.ne_of_lt (lt hi).1), h₁]
      · rw [Array.getElem?_push, if_neg (Nat.ne_of_lt (lt hi).2), h₂]
    · exact ⟨body, body', Array.getElem?_push_size, Array.getElem?_push_size, hb⟩

/-- What is given out in either of them for itself stands for nothing. -/
theorem beside (h : σ.Tallies μ σ') (hb : σ.Beside σ₁) (hs : σ.stamps ≤ σ₁.stamps)
    (hb' : σ'.Beside σ₁') (hs' : σ'.stamps ≤ σ₁'.stamps) : σ₁.Tallies μ σ₁' := by
  obtain ⟨stamps, added, log, hl, rfl⟩ := hb
  obtain ⟨stamps', added', log', hl', rfl⟩ := hb'
  -- the matching stays as it is: the further numbers, and bodies, stand for nothing
  have hc : μ.Counts stamps stamps' (σ.bodies ++ added) (σ'.bodies ++ added') := by
    refine { h.counts with lt := fun hm => ?_, bodies := fun hm => ?_ }
    · exact (h.counts.lt hm).imp (Nat.lt_of_lt_of_le · hs) (Nat.lt_of_lt_of_le · hs')
    · obtain ⟨b, b', h₁, h₂, hv⟩ := h.counts.bodies hm
      refine ⟨b, b', ?_, ?_, hv⟩
      · rw [Array.getElem?_append_left (Array.getElem?_eq_some_iff.1 h₁).1, h₁]
      · rw [Array.getElem?_append_left (Array.getElem?_eq_some_iff.1 h₂).1, h₂]
  exact { h.grow (.refl μ) hc with log := hl.trans (h.log.trans hl'.symm) }

end Session.Tallies

end RuleTree
