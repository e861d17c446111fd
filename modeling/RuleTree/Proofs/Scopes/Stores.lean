import RuleTree.Proofs.History.Event
import RuleTree.Proofs.Rebuilding.Shapes
import RuleTree.Proofs.Scopes.Shown

/-!
# Stores of two runs

* `RuleSet.Tallies`: rule sets that are the same but for numbers and for the values in their scopes;
* `OptionSet.Tallies`, `Store.Tallies`: options and stores that are the same but for these;
* `OptionSet.Tallies.merge`: options are put together alike;
* `Store.Tallies.plant` and the like: what is done to such stores alike gives such stores, and a
  definition does so whatever the values are;
* `Store.silent`: no tree writes its custom properties;
* `Store.Tallies.block?`, `Store.Tallies.blocks`, `Store.Tallies.css`: then blocks and texts are the
  same;
* `Store.Tallies.picture`, `Store.Tallies.label_agree`: so is what is told of rule sets, and whether
  they can be shown by their labels;
* `Iteration.Tallies`: iterations that yield the same.
-/

namespace RuleTree

variable {μ ν : Matching}

/-! ### Options -/

/-- Being the same options but for numbers. -/
structure OptionSet.Tallies (μ : Matching) (o o' : OptionSet) : Prop where
  clearOnReset : o.clearOnReset.Tallies μ o'.clearOnReset
  emitCustomProperties : o.emitCustomProperties.Tallies μ o'.emitCustomProperties
  className : o.className.Tallies μ o'.className
  extra : o.extra.Rel (Datum.Tallies μ) o'.extra

namespace OptionSet.Tallies

variable {o o' : OptionSet}

theorem mono (hle : μ.Le ν) (h : o.Tallies μ o') : o.Tallies ν o' :=
  ⟨h.clearOnReset.mono hle, h.emitCustomProperties.mono hle, h.className.mono hle,
    h.extra.mono fun _ _ => Datum.Tallies.mono hle⟩

/-- The naming rule of a tree that sets none is the same in both runs. -/
theorem default (h : μ.stamp 0 0) : OptionSet.default.Tallies μ OptionSet.default :=
  ⟨.bool false, .bool false, .naming .own h, .empty⟩

theorem get? (h : o.Tallies μ o') (name : String) :
    Option.Rel (Datum.Tallies μ) (o.get? name) (o'.get? name) := by
  unfold OptionSet.get?
  split
  · exact .some h.clearOnReset
  · split
    · exact .some h.emitCustomProperties
    · split
      · exact .some h.className
      · exact h.extra.find? name

theorem set (h : o.Tallies μ o') (name : String) {d d' : Datum} (hd : d.Tallies μ d') :
    (o.set name d).Tallies μ (o'.set name d') := by
  unfold OptionSet.set
  split
  · exact { h with clearOnReset := hd }
  · split
    · exact { h with emitCustomProperties := hd }
    · split
      · exact { h with className := hd }
      · exact { h with extra := h.extra.insert name hd }

theorem names (h : o.Tallies μ o') : o.names = o'.names := by
  have sorted (o : OptionSet) : o.names =
      ([classNameName, clearOnResetName, emitCustomPropertiesName] ++ o.extra.keys).mergeSort
        fun a b => decide (a ≤ b) := by
    unfold OptionSet.names OptionSet.entries
    rw [List.map_mergeSort (s := fun a b => decide (a ≤ b)) fun _ _ _ _ => rfl]
    rfl
  rw [sorted, sorted, h.extra.keys]

theorem links (h : o.Tallies μ o') : List.Forall₂ (Identity.Tallies μ) o.links o'.links := by
  unfold OptionSet.links
  exact List.rel_append (List.rel_append (List.rel_append h.clearOnReset.identities
    h.emitCustomProperties.identities) h.className.identities)
    (List.rel_flatMap h.extra.values fun _ _ hd => hd.identities)

end OptionSet.Tallies

namespace Datum.Tallies

variable {d d' : Datum}

theorem eq_text (h : d.Tallies μ d') {t : String} (hd : d = .text t) : d' = .text t := by
  subst hd
  cases h
  rfl

theorem keyText? (h : d.Tallies μ d') : RuleTree.keyText? d = RuleTree.keyText? d' := by
  cases h <;> rfl

theorem pairOf (h : d.Tallies μ d') :
    Both (PairRel (Datum.Tallies μ) (Datum.Tallies μ)) (RuleTree.pairOf d)
      (RuleTree.pairOf d') := by
  unfold RuleTree.pairOf
  have hi := h.items?
  revert hi
  generalize d.items? = i, d'.items? = i'
  rintro (hi | _)
  · cases hi with
    | nil => exact .error _
    | @cons k k' _ _ hk hs =>
      cases hs with
      | nil => exact .error _
      | cons hv hs =>
        cases hs with
        | nil =>
          simp only
          have all {i i' : Identity} (_ : i.Tallies μ i') : (fun _ : Identity => true) i =
              (fun _ : Identity => true) i' := rfl
          rw [hk.isKey all]
          split
          · exact .ok (.mk hk hv)
          · exact .error _
        | cons => exact .error _
  · exact .error _

theorem mappingEntries (hμ : μ.OneToOne) (h : d.Tallies μ d') :
    Both (Entries μ) (RuleTree.mappingEntries d) (RuleTree.mappingEntries d') := by
  unfold RuleTree.mappingEntries
  rw [h.truthy]
  split
  · have he := h.entries?
    revert he
    generalize d.entries? = e, d'.entries? = e'
    rintro (he | _)
    · exact .ok he
    · have hi := h.items?
      revert hi
      generalize d.items? = i, d'.items? = i'
      rintro (hi | _)
      · refine (Both.mapM hi fun _ _ => pairOf).bind fun ps ps' hp => .ok (entriesOfPairs hμ ?_ hp)
        intro i i' j j' hi hj
        rw [Bool.eq_iff_iff, beq_iff_eq, beq_iff_eq]
        exact hi.eq_iff hμ hj
      · exact .error _
  · exact .ok .nil

end Datum.Tallies

namespace OptionSet.Tallies

theorem setAll {o o' : OptionSet} (h : o.Tallies μ o') {es es' : List (Datum × Datum)}
    (he : Datum.Tallies.Entries μ es es') : (o.setAll es).Tallies μ (o'.setAll es') := by
  unfold OptionSet.setAll
  refine List.rel_foldl (P := OptionSet.Tallies μ) ?_ h he
  intro o o' ho e e' hp
  cases hp with
  | mk hk hv =>
    cases hk with
    | text name => exact ho.set name hv
    | _ => exact ho

/-- Options are put together alike, and refused alike. -/
theorem merge (hμ : μ.OneToOne) (h₀ : μ.stamp 0 0) {d d' : Datum} (h : d.Tallies μ d') :
    Both (OptionSet.Tallies μ) (OptionSet.merge d) (OptionSet.merge d') := by
  unfold OptionSet.merge
  refine (h.mappingEntries hμ).bind fun es es' he => ?_
  have unknown : List.Forall₂ (Datum.Tallies μ) (unknownKeys es) (unknownKeys es') := by
    unfold unknownKeys
    refine List.rel_filter ?_ (List.rel_map (fun _ _ hp => hp.left) he)
    intro k k' hk
    simp only [hk.keyText?]
  refine Both.bind (r := Eq) ?_ ?_
  · refine Both.of_eq ?_
    revert unknown
    generalize unknownKeys es = ks, unknownKeys es' = ks'
    intro unknown
    induction unknown with
    | nil => rfl
    | cons hk _ ih => rw [List.mapM_cons, List.mapM_cons, hk.keyText?, ih]
  · rintro names _ rfl
    split
    · exact .ok ((OptionSet.Tallies.default h₀).setAll he)
    · exact .error _

end OptionSet.Tallies

/-! ### Rule sets -/

/-- Being the same rule set but for numbers and for the values in the scope. -/
structure RuleSet.Tallies (μ : Matching) (r r' : RuleSet) : Prop where
  selector : r.selector.Tallies μ r'.selector
  parent : r.parent = r'.parent
  host : Option.Rel (Datum.Tallies μ) r.host r'.host
  options : r.options = r'.options
  text : r.text = r'.text
  children : r.children = r'.children
  names : r.scope.keys = r'.scope.keys
  written : r.Written

namespace RuleSet.Tallies

variable {r r' : RuleSet}

theorem mono (hle : μ.Le ν) (h : r.Tallies μ r') : r.Tallies ν r' :=
  { h with selector := h.selector.mono hle, host := h.host.mono fun _ _ => Datum.Tallies.mono hle }

theorem fresh {d d' : Datum} {host host' : Option Datum} (hd : d.Tallies μ d')
    (hh : Option.Rel (Datum.Tallies μ) host host') (parent : Option NodeId) (options : OptionsId) :
    (RuleSet.fresh d parent host options).Tallies μ (.fresh d' parent host' options) :=
  ⟨hd, rfl, hh, rfl, rfl, rfl, rfl, fun h => absurd rfl h⟩

theorem links (h : r.Tallies μ r') : List.Forall₂ (Identity.Tallies μ) r.links r'.links := by
  have host {d d' : Datum} (hd : d.Tallies μ d') :
      List.Forall₂ (Identity.Tallies μ) (hostLinks d) (hostLinks d') := by
    unfold hostLinks
    have hi := hd.identity?
    revert hi
    generalize d.identity? = i, d'.identity? = i'
    rintro (_ | _)
    · exact .nil
    · exact hd.identities
  unfold RuleSet.links
  rw [h.children]
  exact List.rel_append (List.rel_append (Identity.Tallies.nodes _) h.selector.identities)
    (List.rel_flatMap h.host.toList fun _ _ => host)

/-- If custom properties are not asked for, they do not show in the block. -/
theorem block? (h : r.Tallies μ r') (look look' : Appearance) :
    r.block? look false = r'.block? look' false := by
  -- without being asked for, the scope may as well be empty, and then both are the same
  let plain (r : RuleSet) : RuleSet := { r with scope := .empty }
  have hw' : (plain r').Written := fun hne => by
    obtain ⟨t, ht⟩ := h.written (h.text ▸ hne)
    exact ⟨t, h.selector.eq_text ht⟩
  have ht : (plain r).text = (plain r').text := h.text
  have hs : (plain r).selector.bare = (plain r').selector.bare := h.selector.bare
  exact block?_congr hs ht rfl hw' look look' false

end RuleSet.Tallies

/-! ### Stores -/

/-- Holding the same but for numbers and for the values in scopes. -/
structure Store.Tallies (μ : Matching) (s s' : Store) : Prop where
  next : s.next = s'.next
  get : ∀ n, (s.get n).Tallies μ (s'.get n)
  options : Rows (OptionSet.Tallies μ) s.options s'.options

namespace Store

/-- No tree writes its custom properties. -/
def silent (s : Store) : Bool := s.options.all fun o => !o.emitCustomProperties.truthy

theorem emits_of_silent {s : Store} (h : s.silent = true) (n : NodeId) : s.emits n = false := by
  unfold emits optionsOf
  cases ho : s.options[(s.get n).options]? with
  | none => rfl
  | some o =>
    have := Array.all_eq_true_iff_forall_mem.1 h o (Array.mem_of_getElem? ho)
    simpa using this

namespace Tallies

variable {s s' : Store}

theorem empty : Store.empty.Tallies μ Store.empty :=
  ⟨rfl, fun n => by
    rw [get_of_next_le (Nat.zero_le n)]
    exact .fresh .null .none none 0, ⟨.nil⟩⟩

theorem mono (hle : μ.Le ν) (h : s.Tallies μ s') : s.Tallies ν s' :=
  ⟨h.next, fun n => (h.get n).mono hle, h.options.mono fun _ _ => OptionSet.Tallies.mono hle⟩

theorem optionsOf (h : s.Tallies μ s') (h₀ : μ.stamp 0 0) (n : NodeId) :
    (s.optionsOf n).Tallies μ (s'.optionsOf n) := by
  unfold Store.optionsOf
  rw [(h.get n).options]
  exact (h.options.getElem? _).getD (.default h₀)

theorem links (h : s.Tallies μ s') (h₀ : μ.stamp 0 0) (n : NodeId) :
    List.Forall₂ (Identity.Tallies μ) (s.links n) (s'.links n) :=
  List.rel_append (h.get n).links (h.optionsOf h₀ n).links

theorem plant (h : s.Tallies μ s') {d d' : Datum} {host host' : Option Datum} {o o' : OptionSet}
    (hd : d.Tallies μ d') (hh : Option.Rel (Datum.Tallies μ) host host') (ho : o.Tallies μ o') :
    (s.plant d host o).Tallies μ (s'.plant d' host' o') := by
  refine ⟨?_, fun n => ?_, h.options.push ho⟩
  · rw [next_plant, next_plant, h.next]
  · rw [get_plant, get_plant, h.next, h.options.size]
    split
    · exact .fresh hd hh none _
    · exact h.get n

theorem sprout (h : s.Tallies μ s') {d d' : Datum} {host host' : Option Datum}
    (hd : d.Tallies μ d') (hh : Option.Rel (Datum.Tallies μ) host host') (p : NodeId) :
    (s.sprout p d host).Tallies μ (s'.sprout p d' host') := by
  refine ⟨?_, fun n => ?_, h.options⟩
  · rw [next_sprout, next_sprout, h.next]
  · rw [get_sprout, get_sprout, h.next, (h.get p).options]
    split
    · exact .fresh hd hh _ _
    · exact h.get n

theorem attach (h : s.Tallies μ s') (c : NodeId) : (s.attach c).Tallies μ (s'.attach c) := by
  refine ⟨?_, fun n => ?_, h.options⟩
  · rw [next_attach, next_attach, h.next]
  · have hn := h.get n
    rw [get_attach, get_attach, (h.get c).parent]
    split
    · exact { hn with children := by rw [hn.children], written := hn.written }
    · exact hn

theorem append (h : s.Tallies μ s') (n : NodeId) (text : String)
    (ht : ∃ t, (s.get n).selector = .text t) :
    Store.Tallies μ { s with forest := s.forest.append n text }
      { s' with forest := s'.forest.append n text } := by
  refine ⟨?_, fun m => ?_, h.options⟩
  · rw [next_append, next_append, h.next]
  · have hm := h.get m
    rw [get_append, get_append, h.next]
    split
    · rename_i hnm
      exact { hm with text := by rw [hm.text], written := fun _ => hnm.1 ▸ ht }
    · exact hm

/-- Writing is refused alike, and what is written is the same. -/
theorem write (h : s.Tallies μ s') (n : NodeId) {d d' : Datum} (hd : d.Tallies μ d') :
    Both (Store.Tallies μ) (s.write n d) (s'.write n d') := by
  have hs := (h.get n).selector
  have key := h.append n
  unfold Store.write
  revert hs key
  generalize (s.get n).selector = a, (s'.get n).selector = a'
  intro hs key
  cases hs with
  | text t =>
    cases hd <;> simp only <;> split
    all_goals first
      | exact .error _
      | exact .ok (key _ ⟨t, rfl⟩)
  | _ => exact .error _

theorem clearForReset (h : s.Tallies μ s') (h₀ : μ.stamp 0 0) (n : NodeId) :
    (s.clearForReset n).Tallies μ (s'.clearForReset n) := by
  unfold Store.clearForReset clearsOnReset
  rw [(h.optionsOf h₀ n).clearOnReset.truthy]
  split
  · refine ⟨?_, fun m => ?_, h.options⟩
    · rw [next_clear, next_clear, h.next]
    · have hm := h.get m
      rw [get_clear, get_clear, h.next]
      split
      · exact { hm with
          text := rfl
          children := rfl
          names := rfl
          written := fun he => absurd rfl he }
      · exact hm
  · exact h

/-- Whatever the texts are that a property is defined by, they show in the scopes only. -/
theorem define (h : s.Tallies μ s') (n : NodeId) (name text text' : String) :
    Store.Tallies μ { s with forest := s.forest.define n name text }
      { s' with forest := s'.forest.define n name text' } := by
  refine ⟨?_, fun m => ?_, h.options⟩
  · rw [next_define, next_define, h.next]
  · have hm := h.get m
    rw [get_define, get_define, h.next]
    split
    · exact { hm with names := by rw [Table.keys_insert, Table.keys_insert, hm.names] }
    · exact hm

theorem setOption (h : s.Tallies μ s') (n : NodeId) (name : String) {d d' : Datum}
    (hd : d.Tallies μ d') : (s.setOption n name d).Tallies μ (s'.setOption n name d') := by
  refine ⟨h.next, h.get, ?_⟩
  unfold Store.setOption
  rw [(h.get n).options]
  exact h.options.modify _ fun o o' ho => ho.set name hd

/-! ### What is shown -/

theorem silent (h : s.Tallies μ s') : s.silent = s'.silent := by
  unfold Store.silent
  rw [← Array.all_toList, ← Array.all_toList]
  refine all_of_forall₂ h.options.toList fun o o' ho => ?_
  rw [ho.emitCustomProperties.truthy]

theorem picture (h : s.Tallies μ s') {hostName hostName' : HostId → String}
    (hh : hostName = hostName') (n : NodeId) : s.picture hostName n = s'.picture hostName' n := by
  subst hh
  induction n using Nat.strongRecOn with
  | ind n ih =>
    rw [Store.picture, Store.picture]
    refine congrArg (Except.map _) ((h.get n).selector.picture rfl (funext fun m => ?_) rfl)
    show (if _h : m < n then _ else _) = if _h : m < n then _ else _
    split
    · rename_i hm
      exact ih m hm
    · rfl

theorem label_agree (h : s.Tallies μ s') (hostName hostName' : HostId → String) (n : NodeId) :
    Agree (s.label hostName n) (s'.label hostName' n) := by
  have hb (m : NodeId) (_ : m < n + 1) : (s.get m).selector.bare = (s'.get m).selector.bare :=
    (h.get m).selector.bare
  exact Store.label_agree hb (Nat.lt_succ_self n)

theorem preorder (h : s.Tallies μ s') (n : NodeId) :
    s.forest.preorder n = s'.forest.preorder n := by
  induction n using s.forest.treeInduction with
  | step n ih =>
    rw [Forest.preorder_eq, Forest.preorder_eq,
      show (s'.forest.get n).children = (s.forest.get n).children from (h.get n).children.symm]
    exact congrArg (n :: ·) (List.flatMap_congr ih)

section Silent

variable (hs : s.silent = true)
include hs

theorem block? (h : s.Tallies μ s') (look look' : Appearance) (n : NodeId) :
    s.block? look n = s'.block? look' n := by
  unfold Store.block?
  rw [emits_of_silent hs, emits_of_silent (h.silent ▸ hs)]
  exact (h.get n).block? look look'

theorem step (h : s.Tallies μ s') (look look' : Appearance) (c : Cursor) :
    c.step s look = c.step s' look' := by
  match c with
  | [] => rfl
  | .enter n :: rest =>
    simp only [Cursor.step]
    rw [h.block? hs look look']
  | .resume n i :: rest =>
    simp only [Cursor.step]
    rw [(h.get n).children]

theorem nextBlock (h : s.Tallies μ s') (look look' : Appearance) (c : Cursor) :
    c.next s look = c.next s' look' := by
  -- on the work that is left to the cursor: a step that shows no block leaves less
  generalize hw : c.work s = w
  induction w using Nat.strongRecOn generalizing c with
  | ind w ih =>
    by_cases hc : c = []
    · subst hc
      rw [Cursor.next_nil, Cursor.next_nil]
    have hstep := h.step hs look look' c
    cases hd : c.step s look with
    | error e =>
      rw [Cursor.next_of_step_error hd, Cursor.next_of_step_error (hstep ▸ hd)]
    | ok p =>
      obtain ⟨c', block⟩ := p
      cases block with
      | some block => rw [Cursor.next_of_step hd, Cursor.next_of_step (hstep ▸ hd)]
      | none =>
        rw [Cursor.next_of_step_none hc hd, Cursor.next_of_step_none hc (hstep ▸ hd)]
        have := Cursor.work_step hc hd
        exact ih _ (by omega) c' rfl

theorem blocks (h : s.Tallies μ s') (hostName hostName' : HostId → String) (n : NodeId) :
    s.blocks hostName n = s'.blocks hostName' n := by
  let look := s.appearance hostName
  have hw' (x : NodeId) : (s'.get x).Written := fun hne => by
    obtain ⟨t, ht⟩ := (h.get x).written ((h.get x).text ▸ hne)
    exact ⟨t, (h.get x).selector.eq_text ht⟩
  rw [blocks_eq (fun x _ => (h.get x).written) hostName look,
    blocks_eq (fun x _ => hw' x) hostName' look, h.preorder]
  exact blocksOf_congr fun x _ => h.block? hs look look x

theorem css (h : s.Tallies μ s') (hostName hostName' : HostId → String) (n : NodeId) :
    s.css hostName n = s'.css hostName' n :=
  congrArg (Except.map _) (h.blocks hs hostName hostName' n)

end Silent

theorem chain (h : s.Tallies μ s') {alive alive' : NodeId → Bool} (ha : alive = alive')
    (n : NodeId) : s.chain alive n = s'.chain alive' n := by
  subst ha
  induction n using Nat.strongRecOn with
  | ind n ih =>
    rw [chain_eq, chain_eq, ← (h.get n).parent]
    cases hp : (s.get n).parent.filter alive with
    | none => rfl
    | some p =>
      have hlt : p < n := Forest.lt_of_parent (Option.filter_eq_some_iff.1 hp).1
      exact congrArg (n :: ·) (ih p hlt)

end Tallies

end Store

/-! ### Iterations -/

/-- Being iterations over the same blocks, or over values that are the same but for numbers. -/
inductive Iteration.Tallies (μ : Matching) : Iteration → Iteration → Prop
  | ended : Tallies μ .ended .ended
  | blocks (c : Cursor) : Tallies μ (.blocks c) (.blocks c)
  | items {d d' : Datum} {rest rest' : List Datum} (source : d.Tallies μ d')
    (left : List.Forall₂ (Datum.Tallies μ) rest rest') : Tallies μ (.items d rest) (.items d' rest')

namespace Iteration.Tallies

variable {i i' : Iteration}

theorem mono (hle : μ.Le ν) (h : i.Tallies μ i') : i.Tallies ν i' := by
  cases h with
  | ended => exact .ended
  | blocks c => exact .blocks c
  | items source left =>
    exact .items (source.mono hle) (left.imp fun _ _ => Datum.Tallies.mono hle)

theorem identities (h : i.Tallies μ i') :
    List.Forall₂ (Identity.Tallies μ) i.identities i'.identities := by
  cases h with
  | ended => exact .nil
  | blocks c =>
    exact Identity.Tallies.nodes _
  | items source => exact source.identities

theorem of? {d d' : Datum} (h : d.Tallies μ d') :
    Both (Iteration.Tallies μ) (Iteration.of? d) (Iteration.of? d') := by
  have items : Both (Iteration.Tallies μ)
      (d.items?.elim (.error .notIterable) fun found => .ok (.items d found))
      (d'.items?.elim (.error .notIterable) fun found => .ok (.items d' found)) := by
    have hi := h.items?
    revert hi
    generalize d.items? = i, d'.items? = i'
    rintro (hi | _)
    · exact .ok (.items h hi)
    · exact .error _
  cases h with
  | node n => exact .ok (.blocks _)
  | _ => exact items

variable {s s' : Store} (hs : s.silent = true) (hstore : s.Tallies μ s')
include hs hstore

/-- What iterations that tally yield next tallies. -/
theorem next (h : i.Tallies μ i') (look look' : Appearance) :
    PairRel (Both (Option.Rel (Datum.Tallies μ))) (Iteration.Tallies μ) (i.next s look)
      (i'.next s' look') := by
  cases h with
  | ended => exact .mk (.ok .none) .ended
  | blocks c =>
    unfold Iteration.next
    simp only
    rw [← hstore.nextBlock hs look look']
    split
    · exact .mk (.error _) .ended
    · exact .mk (.ok .none) .ended
    · exact .mk (.ok (.some (.text _))) (.blocks _)
  | items source left =>
    cases left with
    | nil => exact .mk (.ok .none) .ended
    | cons hd hrest => exact .mk (.ok (.some hd)) (.items source hrest)

theorem take (h : i.Tallies μ i') (look look' : Appearance) (count : Nat) :
    PairRel (Both (List.Forall₂ (Datum.Tallies μ))) (Iteration.Tallies μ) (i.take s look count)
      (i'.take s' look' count) := by
  induction count generalizing i i' with
  | zero => exact .mk (.ok .nil) h
  | succ count ih =>
    have hn := h.next hs hstore look look'
    unfold Iteration.take
    revert hn
    generalize i.next s look = x, i'.next s' look' = y
    rintro (⟨hd, hi⟩)
    cases hd with
    | error e => exact .mk (.error e) hi
    | ok hd =>
      have ht := ih hi
      simp only
      revert ht
      generalize Iteration.take s look count _ = x, Iteration.take s' look' count _ = y
      rintro (⟨hds, hi⟩)
      exact .mk (hds.map fun _ _ hds => .cons (hd.getD .null) hds) hi

end Iteration.Tallies

end RuleTree
