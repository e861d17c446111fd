import RuleTree.Proofs.Options.Given
import RuleTree.Proofs.Tree.Origin

/-!
# Options are shared by construction trees

* `Store.SameTree`: coming from the same root;
* `Event.setting?`, `Store.settings`: what was set on the rule sets of one construction tree, in
  order;
* `Store.Shares`: two rule sets have one set of options if and only if they are in the same
  construction tree, and that set is what the root was built with, with what was set on the tree since
  then over it;
* `Store.Shares.becomes`, `Store.Shares.trail`: so it stays, whatever happens;
* `Session.Reads`: reading certain options in a reset, a rules step and a selection by kind;
* `Machine.sharesOptions`: so it is in every state of a script, and setting an option does nothing
  else.

Being attached, being detached or having failed plays no part here: only the parent counts that a rule
set was constructed with.
-/

namespace RuleTree

/-- What is there stays there. -/
theorem Event.Comes.mono {next next' : NodeId} (hn : next ≤ next') {given : Option (Table Datum)}
    {e : Event} (h : e.Comes next given) : e.Comes next' given := by
  cases e with
  | planted => exact h
  | sprouted n p selector host fragment =>
    cases fragment with
    | none => exact Nat.lt_of_lt_of_le h hn
    | some f => trivial
  | optionSet => exact Nat.lt_of_lt_of_le h hn
  | _ => trivial

/-- What an event sets on the construction tree of a root. -/
def Event.setting? (s : Store) (r : NodeId) : Event → Option (String × Datum)
  | optionSet n name value => if s.origin n = r then some (name, value) else none
  | _ => none

namespace Store

variable {s t : Store} {h : List Event} {n m r : NodeId}

/-- Coming from the same root. -/
def SameTree (s : Store) (n m : NodeId) : Prop :=
  ∃ r, (s.get r).parent = none ∧ s.Descends n r ∧ s.Descends m r

theorem sameTree_iff : s.SameTree n m ↔ s.origin n = s.origin m := origin_eq_origin_iff.symm

/-- What was set on the construction tree of a root, in order. -/
def settings (s : Store) (h : List Event) (r : NodeId) : List (String × Datum) :=
  h.filterMap (Event.setting? s r)

/-- How options are shared after some events. -/
structure Shares (s : Store) (h : List Event) : Prop where
  recorded : s.Recorded h
  /-- every rule set has options that are there -/
  held : ∀ n < s.next, (s.get n).options < s.options.size
  /-- a rule set has those of its parent -/
  inherited : ∀ {n p}, (s.get n).parent = some p → (s.get n).options = (s.get p).options
  /-- no two roots have the same -/
  single : ∀ {n m}, n < s.next → m < s.next → (s.get n).parent = none → (s.get m).parent = none →
    (s.get n).options = (s.get m).options → n = m
  /-- a rule set was made under an older one -/
  older : ∀ {n p selector host fragment}, .sprouted n p selector host fragment ∈ h → p < n
  /-- options were set on what was there -/
  there : ∀ {n name value}, .optionSet n name value ∈ h → n < s.next
  /-- the options of a root are what it was built with, with what was set since then over it -/
  merged : ∀ {n selector host o}, .planted n selector host o ∈ h →
    s.optionsOf n = o.setNamed (s.settings h n)

theorem shares_empty : Shares .empty [] where
  recorded := owned_empty.recorded
  held := nofun
  inherited := nofun
  single := nofun
  older := nofun
  there := nofun
  merged := nofun

namespace Shares

theorem options_origin (hs : s.Shares h) (n : NodeId) :
    (s.get n).options = (s.get (s.origin n)).options := by
  have key {r : NodeId} (hd : s.Descends n r) : (s.get n).options = (s.get r).options := by
    induction hd with
    | refl => rfl
    | tail _ hp ih => rw [ih, hs.inherited hp]
  exact key (s.descends_origin n).1

/-- Two rule sets have the same options if and only if they are in the same construction tree. -/
theorem options_eq_iff (hs : s.Shares h) (hn : n < s.next) (hm : m < s.next) :
    (s.get n).options = (s.get m).options ↔ s.SameTree n m := by
  rw [sameTree_iff, hs.options_origin n, hs.options_origin m]
  refine ⟨fun he => ?_, fun he => by rw [he]⟩
  exact hs.single (origin_lt_next hn) (origin_lt_next hm) (s.descends_origin n).2
    (s.descends_origin m).2 he

theorem optionsOf_origin (hs : s.Shares h) (n : NodeId) :
    s.optionsOf n = s.optionsOf (s.origin n) := by
  unfold optionsOf
  rw [hs.options_origin n]

/-- Every rule set was constructed as a root or under a parent. -/
theorem constructed (hs : s.Shares h) (hn : n < s.next) :
    (∃ selector host o, .planted n selector host o ∈ h ∧ (s.get n).parent = none) ∨
      ∃ p selector host fragment, .sprouted n p selector host fragment ∈ h ∧
        (s.get n).parent = some p := by
  have hmem : n ∈ h.filterMap Event.made? := by
    rw [hs.recorded.made]
    exact List.mem_range.2 hn
  obtain ⟨e, he, hm⟩ := List.mem_filterMap.1 hmem
  have hh := hs.recorded.holds e he
  cases e with
  | planted n' selector host o =>
    cases hm
    exact .inl ⟨selector, host, o, he, hh.2⟩
  | sprouted n' p selector host fragment =>
    cases hm
    refine .inr ⟨p, selector, host, fragment, he, ?_⟩
    rw [hh.2.1, Option.filter_some, if_pos (decide_eq_true (hs.older he))]
  | _ => cases hm

/-- What was set on a tree is still what was set on it later. -/
theorem settings_eq (hs : s.Shares h) (ho : ∀ n < s.next, t.origin n = s.origin n) (r : NodeId) :
    t.settings h r = s.settings h r := by
  refine List.filterMap_congr fun e he => ?_
  cases e with
  | optionSet n name value => simp only [Event.setting?, ho n (hs.there he)]
  | _ => rfl

/-- One more event adds its own setting, if it has one for this tree, to those of the history. -/
theorem settings_concat {e : Event} (hs : s.Shares h) (hb : s.Becomes e t) (r : NodeId) :
    t.settings (h ++ [e]) r = s.settings h r ++ (e.setting? t r).toList := by
  have hold := hs.settings_eq (fun _ hlt => Trail.origin (.single hb) hlt) r
  unfold settings at hold ⊢
  rw [List.filterMap_append, hold]
  cases he : e.setting? t r with
  | none => rw [List.filterMap_cons_none he, List.filterMap_nil, Option.toList_none]
  | some p => rw [List.filterMap_cons_some he, List.filterMap_nil, Option.toList_some]

/-- On what was not made yet nothing was set. -/
theorem settings_of_next_le (hs : s.Shares h) (hr : s.next ≤ r) : s.settings h r = [] := by
  refine List.filterMap_eq_nil_iff.2 fun e he => ?_
  cases e with
  | optionSet n name value =>
    refine if_neg fun ho => ?_
    exact absurd (ho ▸ origin_lt_next (hs.there he)) (Nat.not_lt.2 hr)
  | _ => rfl

/-- An event that makes nothing and sets nothing leaves everybody's options alone. -/
theorem quiet {e : Event} (hs : s.Shares h) (hb : s.Becomes e t) (hn : t.next = s.next)
    (ho : t.options = s.options) (he : ∀ r, e.setting? t r = none) (hm : e.made? = none)
    (hset : ∀ n name value, e ≠ .optionSet n name value) : t.Shares (h ++ [e]) := by
  have made {n : NodeId} (hlt : n < t.next) := hb.madeAs (hn ▸ hlt)
  have old {e' : Event} (h' : e' ∈ h ++ [e]) : e' ∈ h ∨ e' = e := by simpa using h'
  have hset' (r : NodeId) : t.settings (h ++ [e]) r = s.settings h r := by
    rw [hs.settings_concat hb, he, Option.toList_none, List.append_nil]
  exact
    { recorded := hs.recorded.becomes hb
      held := fun n hlt => by
        rw [(made hlt).options, ho]
        exact hs.held n (hn ▸ hlt)
      inherited := fun {n p} hp => by
        have hlt := Forest.lt_size_of_parent hp
        have hp' := (made hlt).parent.symm.trans hp
        rw [(made hlt).options, (made (Nat.lt_trans (Forest.lt_of_parent hp) hlt)).options]
        exact hs.inherited hp'
      single := fun {n m} hn' hm' hpn hpm he => by
        rw [(made hn').parent] at hpn
        rw [(made hm').parent] at hpm
        rw [(made hn').options, (made hm').options] at he
        exact hs.single (hn ▸ hn') (hn ▸ hm') hpn hpm he
      older := fun {n p selector host fragment} h' => by
        rcases old h' with h' | rfl
        · exact hs.older h'
        · cases hm
      there := fun {n name value} h' => by
        rcases old h' with h' | h'
        · exact hn ▸ hs.there h'
        · exact absurd h'.symm (hset n name value)
      merged := fun {n selector host o} h' => by
        rcases old h' with h' | rfl
        · have hlt := hs.recorded.lt_next h' rfl
          rw [hset', ← hs.merged h']
          unfold optionsOf
          rw [ho, (made (hn ▸ hlt)).options]
        · cases hm }

/-- A new root has options of its own. -/
theorem plant (hs : s.Shares h) (selector : Datum) (host : Option Datum) (o : OptionSet) :
    (s.plant selector host o).Shares (h ++ [.planted s.next selector host o]) := by
  have hb : s.Becomes (.planted s.next selector host o) (s.plant selector host o) := .planted ..
  have old {n : NodeId} (hlt : n < s.next) :
      (s.plant selector host o).get n = s.get n := by rw [get_plant, if_neg (Nat.ne_of_lt hlt)]
  have new : (s.plant selector host o).get s.next =
      .fresh selector none host s.options.size := by rw [get_plant, if_pos rfl]
  have lt {n : NodeId} (hlt : n < (s.plant selector host o).next) : n < s.next ∨ n = s.next := by
    rw [next_plant] at hlt
    exact Nat.lt_or_eq_of_le (Nat.le_of_lt_succ hlt)
  have hsize : (s.plant selector host o).options.size = s.options.size + 1 := Array.size_push _
  have hset (r : NodeId) :
      (s.plant selector host o).settings (h ++ [.planted s.next selector host o]) r =
        s.settings h r := (hs.settings_concat hb r).trans (List.append_nil _)
  exact
    { recorded := hs.recorded.becomes hb
      held := fun n hn => by
        rw [hsize]
        rcases lt hn with hn | rfl
        · rw [old hn]
          exact Nat.lt_succ_of_lt (hs.held n hn)
        · rw [new]
          exact Nat.lt_succ_self _
      inherited := fun {n p} hp => by
        rcases lt (Forest.lt_size_of_parent hp) with hn | rfl
        · have hlt := Nat.lt_trans (Forest.lt_of_parent hp) hn
          rw [old hn] at hp ⊢
          rw [old hlt]
          exact hs.inherited hp
        · rw [new] at hp
          cases hp
      single := fun {n m} hn hm hpn hpm he => by
        rcases lt hn with hn | rfl <;> rcases lt hm with hm | rfl
        · rw [old hn, old hm] at he
          rw [old hn] at hpn
          rw [old hm] at hpm
          exact hs.single hn hm hpn hpm he
        · rw [old hn, new] at he
          exact absurd he (Nat.ne_of_lt (hs.held n hn))
        · rw [old hm, new] at he
          exact absurd he (Nat.ne_of_gt (hs.held m hm))
        · rfl
      older := fun {n p selector' host' fragment} h' => by
        rcases List.mem_append.1 h' with h' | h'
        · exact hs.older h'
        · cases List.mem_singleton.1 h'
      there := fun {n name value} h' => by
        rcases List.mem_append.1 h' with h' | h'
        · exact Nat.lt_of_lt_of_le (hs.there h') hb.next_le
        · cases List.mem_singleton.1 h'
      merged := fun {n selector' host' o'} h' => by
        rw [hset]
        unfold optionsOf
        rcases List.mem_append.1 h' with h' | h'
        · have hlt := hs.recorded.lt_next h' rfl
          rw [old hlt, ← hs.merged h']
          show (s.options.push o)[_]?.getD default = _
          rw [Array.getElem?_push_lt (hs.held n hlt), ← Array.getElem?_eq_getElem (hs.held n hlt)]
          rfl
        · cases List.mem_singleton.1 h'
          rw [new, hs.settings_of_next_le (Nat.le_refl _)]
          show (s.options.push o)[s.options.size]?.getD default = _
          rw [Array.getElem?_push_size]
          rfl }

/-- A rule set under a parent has the options of the parent. -/
theorem sprout (hs : s.Shares h) {p : NodeId} (hp : p < s.next) {selector : Datum}
    {host fragment : Option Datum}
    (hb : s.Becomes (.sprouted s.next p selector host fragment) (s.sprout p selector host)) :
    (s.sprout p selector host).Shares (h ++ [.sprouted s.next p selector host fragment]) := by
  have old {n : NodeId} (hlt : n < s.next) :
      (s.sprout p selector host).get n = s.get n := by rw [get_sprout, if_neg (Nat.ne_of_lt hlt)]
  have new : (s.sprout p selector host).get s.next =
      .fresh selector (some p) host (s.get p).options := by
    rw [get_sprout, if_pos rfl, Option.filter_some, if_pos (decide_eq_true hp)]
  have lt {n : NodeId} (hlt : n < (s.sprout p selector host).next) : n < s.next ∨ n = s.next := by
    rw [next_sprout] at hlt
    exact Nat.lt_or_eq_of_le (Nat.le_of_lt_succ hlt)
  have root {n : NodeId} (hn : n < (s.sprout p selector host).next)
      (hpn : ((s.sprout p selector host).get n).parent = none) : n < s.next := by
    rcases lt hn with hn | rfl
    · exact hn
    · rw [new] at hpn
      cases hpn
  have hset (r : NodeId) :
      (s.sprout p selector host).settings (h ++ [.sprouted s.next p selector host fragment]) r =
        s.settings h r := (hs.settings_concat hb r).trans (List.append_nil _)
  exact
    { recorded := hs.recorded.becomes hb
      held := fun n hn => by
        show _ < s.options.size
        rcases lt hn with hn | rfl
        · rw [old hn]
          exact hs.held n hn
        · rw [new]
          exact hs.held p hp
      inherited := fun {n q} hq => by
        rcases lt (Forest.lt_size_of_parent hq) with hn | rfl
        · have hlt := Nat.lt_trans (Forest.lt_of_parent hq) hn
          rw [old hn] at hq ⊢
          rw [old hlt]
          exact hs.inherited hq
        · rw [new] at hq ⊢
          cases hq
          rw [old hp]
          rfl
      single := fun {n m} hn hm hpn hpm he => by
        have hn' := root hn hpn
        have hm' := root hm hpm
        rw [old hn'] at hpn he
        rw [old hm'] at hpm he
        exact hs.single hn' hm' hpn hpm he
      older := fun {n q selector' host' fragment'} h' => by
        rcases List.mem_append.1 h' with h' | h'
        · exact hs.older h'
        · cases List.mem_singleton.1 h'
          exact hp
      there := fun {n name value} h' => by
        rcases List.mem_append.1 h' with h' | h'
        · exact Nat.lt_of_lt_of_le (hs.there h') hb.next_le
        · cases List.mem_singleton.1 h'
      merged := fun {n selector' host' o'} h' => by
        rcases List.mem_append.1 h' with h' | h'
        · have hlt := hs.recorded.lt_next h' rfl
          rw [hset, ← hs.merged h']
          unfold optionsOf
          rw [old hlt]
          rfl
        · cases List.mem_singleton.1 h' }

/-- What is set on a rule set is set for its construction tree and for no other. -/
theorem optionsOf_setOption (hs : s.Shares h) (hn : n < s.next) (hm : m < s.next) (name : String)
    (value : Datum) :
    (s.setOption n name value).optionsOf m =
      if s.origin n = s.origin m then (s.optionsOf m).set name value else s.optionsOf m := by
  have hiff := (hs.options_eq_iff hn hm).trans sameTree_iff
  unfold optionsOf setOption
  show ((s.options.modify _ _)[(s.get m).options]?).getD default = _
  rw [Array.getElem?_modify]
  by_cases he : s.origin n = s.origin m
  · rw [if_pos (hiff.2 he), if_pos he, Array.getElem?_eq_getElem (hs.held m hm)]
    rfl
  · rw [if_neg fun h => he (hiff.1 h), if_neg he]

/-- An option that is set on a rule set. -/
theorem setOption (hs : s.Shares h) (hn : n < s.next) (name : String) (value : Datum) :
    (s.setOption n name value).Shares (h ++ [.optionSet n name value]) := by
  have hb : s.Becomes (.optionSet n name value) (s.setOption n name value) := .optionSet ..
  have ho (m : NodeId) (hm : m < s.next) : (s.setOption n name value).origin m = s.origin m :=
    Trail.origin (.single hb) hm
  exact
    { recorded := hs.recorded.becomes hb
      held := fun m hm => by
        show _ < (s.options.modify _ _).size
        rw [Array.size_modify]
        exact hs.held m hm
      inherited := hs.inherited
      single := hs.single
      older := fun h' => by
        rcases List.mem_append.1 h' with h' | h'
        · exact hs.older h'
        · cases List.mem_singleton.1 h'
      there := fun h' => by
        rcases List.mem_append.1 h' with h' | h'
        · exact hs.there h'
        · cases List.mem_singleton.1 h'
          exact hn
      merged := fun {r selector host o} h' => by
        rcases List.mem_append.1 h' with h' | h'
        · have hr := hs.recorded.lt_next h' rfl
          have hroot : s.origin r = r := origin_of_root (hs.recorded.holds _ h').2
          rw [hs.optionsOf_setOption hn hr, hroot, hs.merged h', hs.settings_concat hb]
          simp only [OptionSet.setNamed, Event.setting?, List.foldl_append, ho n hn]
          by_cases he : s.origin n = r
          · rw [if_pos he, if_pos he]
            rfl
          · rw [if_neg he, if_neg he]
            rfl
        · cases List.mem_singleton.1 h' }

theorem becomes {e : Event} (hs : s.Shares h) (hb : s.Becomes e t)
    {given : Option (Table Datum)} (hc : e.Comes s.next given) : t.Shares (h ++ [e]) := by
  cases hb with
  | planted selector host o => exact hs.plant selector host o
  | sprouted p selector host fragment hf =>
    refine hs.sprout ?_ (.sprouted p selector host fragment hf)
    cases fragment with
    | none => exact hc
    | some f =>
      obtain ⟨stamp, hplus⟩ := hf f rfl
      exact lt_next_of_plus hplus
  | selected p c hp =>
    exact hs.quiet (.selected p c hp) (by simp) rfl (fun _ => rfl) rfl nofun
  | wrote n text selector hsel hinc =>
    exact hs.quiet (.wrote n text selector hsel hinc) (by simp) rfl (fun _ => rfl) rfl nofun
  | defined n name text =>
    exact hs.quiet (.defined n name text) (by simp) rfl (fun _ => rfl) rfl nofun
  | cleared n hcl => exact hs.quiet (.cleared n hcl) (by simp) rfl (fun _ => rfl) rfl nofun
  | optionSet n name value => exact hs.setOption hc name value

theorem trail {events : List Event} (hs : s.Shares h) (ht : s.Trail events t)
    (hc : ∀ e ∈ events, ∃ given, e.Comes s.next given) : t.Shares (h ++ events) := by
  induction ht generalizing h with
  | nil => simpa using hs
  | @cons s u t e events hb _ ih =>
    obtain ⟨given, he⟩ := hc e List.mem_cons_self
    have hc' : ∀ e ∈ events, ∃ given, e.Comes u.next given := fun e he =>
      (hc e (List.mem_cons_of_mem _ he)).imp fun _ h => h.mono hb.next_le
    simpa using ih (hs.becomes hb he) hc'

end Shares

end Store

/-- Reading certain options of a rule set: a reset, a rules step and a selection by kind go by
them. -/
structure Session.Reads (σ : Session) (n : NodeId) (o : OptionSet) : Prop where
  options : σ.store.optionsOf n = o
  reset : σ.store.clearForReset n =
    if o.clearOnReset.truthy then { σ.store with forest := σ.store.forest.clear n } else σ.store
  rules : ∀ look rest, Cursor.step σ.store look (.enter n :: rest) =
    ((σ.store.get n).block? look o.emitCustomProperties.truthy).map
      fun block => (.resume n 0 :: rest, block)
  kind : ∀ kind generator, σ.selectKind n kind generator =
    match σ.apply o.className kind with
    | .gives σ className => σ.selectNamed n className generator
    | .fails e => .refuse σ e
    | .runs body => .enter σ (.name n kind generator o.className) body

theorem Session.reads_of_options {σ : Session} {n : NodeId} {o : OptionSet}
    (h : σ.store.optionsOf n = o) : σ.Reads n o := by
  subst h
  exact ⟨rfl, rfl, fun _ _ => rfl, fun _ _ => rfl⟩

namespace Machine

/-- Every event of a history is one of some step. -/
theorem exists_of_mem_history {m : Machine} {e : Event} {k : Nat} (h : e ∈ history k m) :
    ∃ j < k, e ∈ (run j m).events := by
  induction k generalizing m with
  | zero => cases h
  | succ k ih =>
    rcases List.mem_append.1 h with h | h
    · exact ⟨0, Nat.succ_pos k, h⟩
    · obtain ⟨j, hj, he⟩ := ih h
      exact ⟨j + 1, Nat.succ_lt_succ hj, run_succ j m ▸ he⟩

theorem comes_of_grounded {m : Machine} (hg : m.Grounded) :
    ∀ e ∈ m.events, ∃ given, e.Comes m.session.store.next given := fun _ he =>
  (comes_events hg he).elim (fun h => ⟨none, h⟩)
    (fun ⟨_, _, action, _, h⟩ => ⟨action.given?, h⟩)

/-- In every state of a script options are shared by construction trees. -/
theorem shares (s : Script) (k : Nat) :
    (run k (load s)).session.store.Shares (history k (load s)) := by
  induction k with
  | zero => exact Store.shares_empty
  | succ k ih =>
    rw [run_step, history_add k 1]
    show Store.Shares _ (_ ++ ((run k (load s)).events ++ []))
    rw [List.append_nil]
    exact ih.trail (run k (load s)).move_step.trail (comes_of_grounded (grounded s k))

/-- How options are shared in a state of a script, with what is set and what is built in its next
step. -/
structure SharesOptions (s : Script) (k : Nat) : Prop where
  /-- every rule set was constructed once, as a root or under a parent, which it has for ever -/
  constructed : ∀ n < (run k (load s)).session.store.next,
    (∃ selector host o, .planted n selector host o ∈ history k (load s) ∧
      ((run k (load s)).session.store.get n).parent = none) ∨
    ∃ p selector host fragment, .sprouted n p selector host fragment ∈ history k (load s) ∧
      ((run k (load s)).session.store.get n).parent = some p
  /-- two rule sets have one set of options if and only if they come from the same root -/
  shared : ∀ n < (run k (load s)).session.store.next, ∀ m < (run k (load s)).session.store.next,
    ((run k (load s)).session.store.get n).options = ((run k (load s)).session.store.get m).options ↔
      (run k (load s)).session.store.SameTree n m
  /-- what a rule set reads are the options that its root was built with, with all that was set on
  rule sets of the same construction tree since then -/
  read : ∀ n < (run k (load s)).session.store.next, ∃ r selector host o,
    .planted r selector host o ∈ history k (load s) ∧
    (run k (load s)).session.store.Descends n r ∧
    (run k (load s)).session.Reads n
      (o.setNamed ((run k (load s)).session.store.settings (history k (load s)) r))
  /-- setting an option is seen by the rule sets of the same construction tree, which then read its
  new value and all other options as before, and changes nothing else -/
  set : ∀ σ tag t name value n, (run k (load s)).task = .begin σ tag (.setOption t name value) →
    σ.target t = .node n → n < (run k (load s)).session.store.next ∧
      (∃ options, (run (k + 1) (load s)).session =
        { σ with store := { (run k (load s)).session.store with options } }) ∧
      ∀ m < (run k (load s)).session.store.next,
        ((run k (load s)).session.store.SameTree n m →
          (run (k + 1) (load s)).session.store.optionsOf m =
            ((run k (load s)).session.store.optionsOf m).set name value ∧
          ((run (k + 1) (load s)).session.store.optionsOf m).get? name = some value ∧
          ∀ other, other ≠ name → ((run (k + 1) (load s)).session.store.optionsOf m).get? other =
            ((run k (load s)).session.store.optionsOf m).get? other) ∧
        (¬ (run k (load s)).session.store.SameTree n m →
          (run (k + 1) (load s)).session.store.optionsOf m =
            (run k (load s)).session.store.optionsOf m)
  /-- the options that a root is built with are those that its statement is given over the defaults,
  whatever was set before -/
  built : ∀ r selector host o, .planted r selector host o ∈ history k (load s) →
    ∃ j < k, ∃ σ tag action given, (run j (load s)).task = .begin σ tag action ∧
      action.given? = some given ∧ (∀ name ∈ given.keys, name ∈ OptionSet.knownNames) ∧
      o = OptionSet.default.setNamed given.entries

/-- The step in which an option is set. -/
theorem session_of_setOption {m : Machine} {σ : Session} {tag : Tag} {t : Target} {name : String}
    {value : Datum} {n : NodeId} (ht : m.task = .begin σ tag (.setOption t name value))
    (hn : σ.target t = .node n) :
    m.step.session = { σ with store := σ.store.setOption n name value } := by
  obtain ⟨m₀, stmt, -, -, -, step⟩ := proceeds_of_task ht
  have hb : σ.begin (.setOption t name value) =
      .done { σ with store := σ.store.setOption n name value } (.ok .nothing) := by
    show σ.onNode t _ = _
    unfold Session.onNode
    rw [hn]
    rfl
  rw [step, perform_done (m := { m₀ with session := σ }) hb]

/-- In every state of a script options are shared by exactly one construction tree. -/
theorem sharesOptions (s : Script) (k : Nat) : SharesOptions s k := by
  have hs := shares s k
  exact
    { constructed := fun n hn => hs.constructed hn
      shared := fun n hn m hm => hs.options_eq_iff hn hm
      read := fun n hn => by
        obtain ⟨hd, hroot⟩ := (run k (load s)).session.store.descends_origin n
        rcases hs.constructed (Store.origin_lt_next hn) with ⟨selector, host, o, he, -⟩ |
          ⟨p, _, _, _, -, hp⟩
        · refine ⟨_, selector, host, o, he, hd, Session.reads_of_options ?_⟩
          rw [hs.optionsOf_origin n, hs.merged he]
        · cases hroot.symm.trans hp
      set := fun σ tag t name value n ht hn => by
        obtain ⟨hstore, hg⟩ := (grounded s k).task ht
        have hlt : n < (run k (load s)).session.store.next :=
          hstore ▸ (hg.announced_target hn).lt_next
        have hstep := session_of_setOption ht hn
        rw [hstore] at hstep
        rw [run_step, hstep]
        refine ⟨hlt, ⟨_, rfl⟩, fun m hm => ?_⟩
        have hset := hs.optionsOf_setOption hlt hm name value
        rw [Store.sameTree_iff]
        constructor
        · intro he
          rw [if_pos he] at hset
          refine ⟨hset, ?_⟩
          show (Store.optionsOf (Store.setOption ..) m).get? name = _ ∧
            ∀ other, _ → (Store.optionsOf (Store.setOption ..) m).get? other = _
          rw [hset]
          exact ⟨by rw [OptionSet.get?_set, if_pos rfl],
            fun other ho => by rw [OptionSet.get?_set, if_neg ho]⟩
        · intro he
          rw [if_neg he] at hset
          exact hset
      built := fun r selector host o he => by
        obtain ⟨j, hj, he⟩ := exists_of_mem_history he
        rcases comes_events (grounded s j) he with ⟨options, hn, -⟩ |
          ⟨σ, tag, action, ht, options, hgiven, hmerge⟩
        · cases hn
        · refine ⟨j, hj, σ, tag, action, options, ht, hgiven,
            fun name hn => OptionSet.known_of_merge hmerge hn, ?_⟩
          rw [OptionSet.merge_optionsDatum] at hmerge
          split at hmerge
          · exact (Except.ok.inj hmerge).symm
          · cases hmerge }

end Machine

end RuleTree
