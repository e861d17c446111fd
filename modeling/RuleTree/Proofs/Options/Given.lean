import RuleTree.Proofs.Calls.Running
import RuleTree.Proofs.Options.Merge
import RuleTree.Proofs.References.Runs

/-!
# Where options come from

* `Action.given?`: the options that a statement gives to a tree that it builds;
* `Event.Comes`: the options of a new tree are those that are given, over the defaults; a rule set is
  constructed under one that is there, and options are set on one that is there;
* `Session.comes_deeds`, `Machine.comes_events`: so it is with everything that statements do.
-/

namespace RuleTree

/-- The options that a statement gives to a tree. That a host is among them does not make it an
option. -/
def Action.given? : Action Datum (List Stmt) → Option (Table Datum)
  | .build _ _ _ options => some ((Table.ofList options).erase Session.hostOption)
  | .construct _ _ _ options _ => some (.ofList options)
  | .create _ _ options => some ((Table.ofList options).erase Session.hostOption)
  | .obtain _ _ _ options => some (.ofList options)
  | .render _ _ _ options => some (.ofList options)
  | _ => none

/-- The options of a tree are the given ones over the defaults. What a rule set is constructed under,
and what options are set on, is there. -/
def Event.Comes (next : NodeId) (given : Option (Table Datum)) : Event → Prop
  | planted _ _ _ o =>
    ∃ options, given = some options ∧ OptionSet.merge (Session.optionsDatum options) = .ok o
  | sprouted _ p _ _ none => p < next
  | optionSet n _ _ => n < next
  | _ => True

/-- Coming from a statement, or from nothing that is given, for all of several events. -/
structure AllCome (next : NodeId) (given : Option (Table Datum)) (events : List Event) : Prop where
  all : ∀ e ∈ events, e.Comes next given

namespace AllCome

variable {next : NodeId} {given : Option (Table Datum)} {e : Event} {events events' : List Event}

theorem nil : AllCome next given [] := ⟨nofun⟩

theorem cons (h : e.Comes next given) (h' : AllCome next given events) :
    AllCome next given (e :: events) := ⟨List.forall_mem_cons.2 ⟨h, h'.all⟩⟩

theorem single (h : e.Comes next given) : AllCome next given [e] := .cons h .nil

theorem append (h : AllCome next given events) (h' : AllCome next given events') :
    AllCome next given (events ++ events') :=
  ⟨fun e he => (List.mem_append.1 he).elim (h.all e) (h'.all e)⟩

end AllCome

namespace Session

variable {σ : Session} {next : NodeId} {given : Option (Table Datum)} {n : NodeId}

theorem comes_callDeeds (callee subject : Datum) :
    AllCome next given (σ.callDeeds callee subject) := by
  unfold callDeeds
  split
  · split
    · exact .single trivial
    · exact .nil
  · exact .nil

theorem comes_fillDeeds (made : Event) (hm : made.Comes next given) (store : Store) (n : NodeId)
    (generator : Datum) : AllCome next given (σ.fillDeeds made store n generator) := by
  refine .cons hm ?_
  split
  · exact .nil
  · exact comes_callDeeds ..

theorem comes_resetDeeds (n : NodeId) (generator : Datum) :
    AllCome next given (σ.resetDeeds n generator) := by
  unfold resetDeeds
  split
  · refine .append ?_ ?_
    · split
      · exact .single trivial
      · exact .nil
    · split
      · exact .nil
      · exact comes_callDeeds ..
  · exact .nil

theorem comes_selectDeeds (n : NodeId) (fragment : Datum) (generator : Option Datum) :
    AllCome next given (σ.selectDeeds n fragment generator) := by
  unfold selectDeeds
  split
  · exact .nil
  · split
    · exact .nil
    · split
      · exact .nil
      · split
        · exact comes_fillDeeds (.sprouted _ _ _ _ (some fragment)) trivial _ _ _
        · exact .nil

theorem comes_namedDeeds (n : NodeId) (className : Datum) (generator : Option Datum) :
    AllCome next given (σ.namedDeeds n className generator) := by
  unfold namedDeeds
  split
  · exact .nil
  · exact comes_selectDeeds ..

theorem comes_methodDeeds (n : NodeId) (name : String) (argument generator : Option Datum) :
    AllCome next given (σ.methodDeeds n name argument generator) := by
  unfold methodDeeds
  split
  · exact .nil
  · split
    · exact .nil
    · simp only
      split
      · unfold kindDeeds
        simp only
        split
        · exact (comes_callDeeds ..).append (comes_namedDeeds ..)
        · exact .nil
        · exact .nil
      · split
        · exact .nil
        · exact comes_selectDeeds ..

theorem comes_rootDeeds (selector host generator : Datum) (options : Table Datum) :
    AllCome next (some options) (σ.rootDeeds selector host generator options) := by
  unfold rootDeeds
  split
  · cases hm : OptionSet.merge (optionsDatum options) with
    | error e => exact .nil
    | ok o => exact comes_fillDeeds (.planted _ _ _ o) ⟨options, rfl, hm⟩ _ _ _
  · exact .nil

theorem comes_buildDeeds (selector generator : Datum) (host : Option Datum)
    (options : Table Datum) :
    AllCome next (some (options.erase hostOption))
      (σ.buildDeeds selector generator host options) := by
  unfold buildDeeds
  split
  · exact .nil
  · split
    · exact .nil
    · exact comes_rootDeeds ..

theorem comes_obtainDeeds (registry : RegistryId) (host generator : Datum)
    (options : Table Datum) :
    AllCome next (some options) (σ.obtainDeeds registry host generator options) := by
  unfold obtainDeeds
  split
  · exact .nil
  split
  · split
    · exact .nil
    · split
      · split
        · exact .nil
        · exact comes_resetDeeds ..
      · split
        · exact .nil
        · split
          · exact .nil
          · exact comes_rootDeeds ..
  · exact .nil

theorem erase_erase {α : Type} (t : Table α) (name : String) :
    (t.erase name).erase name = t.erase name := by
  unfold Table.erase
  simp

theorem comes_createDeeds (arguments : List Datum) (host : Datum) (options : Table Datum) :
    AllCome next (some (options.erase hostOption)) (σ.createDeeds arguments host options) := by
  have key (host first second : Datum) :
      AllCome next (some (options.erase hostOption))
        (σ.createWithDeeds host first second (options.erase hostOption)) := by
    unfold createWithDeeds
    split
    · split
      · exact comes_obtainDeeds ..
      · exact .nil
    · split
      · exact comes_obtainDeeds ..
      · split
        · have hb : AllCome next (some ((options.erase hostOption).erase hostOption))
              (σ.buildDeeds (.text Combinator.root.token) first none (options.erase hostOption)) :=
            comes_buildDeeds ..
          rwa [erase_erase] at hb
        · exact .nil
  unfold createDeeds
  split
  · exact .nil
  · rcases arguments with _ | ⟨first, _ | ⟨second, _ | ⟨third, rest⟩⟩⟩
    · exact .nil
    · exact key _ _ _
    · exact key _ _ _
    · exact .nil

theorem comes_targetDeeds (hg : σ.Grounded) {t : Target} {events : NodeId → List Event}
    (h : ∀ n < σ.store.next, AllCome next given (events n)) :
    AllCome next given (σ.targetDeeds t events) := by
  unfold targetDeeds
  split
  · rename_i n ht
    exact h n (hg.announced_target ht).lt_next
  · exact .nil

/-- Whatever a statement does as it begins comes from what is there and from what it is given. -/
theorem comes_deeds (hg : σ.Grounded) (action : Action Datum (List Stmt)) :
    AllCome σ.store.next action.given? (σ.deeds action) := by
  have written {n : NodeId} {d : Datum} : AllCome σ.store.next none (σ.writeDeeds n d) := by
    unfold writeDeeds
    split
    · exact .single trivial
    · exact .nil
  cases action with
  | select t method argument generator =>
    exact comes_targetDeeds hg fun n _ => comes_methodDeeds ..
  | write t text => exact comes_targetDeeds hg fun n _ => written
  | assign t properties keywords =>
    refine comes_targetDeeds hg fun n _ => ?_
    unfold assignDeeds
    split
    · exact .nil
    · exact written
  | define t name value =>
    refine comes_targetDeeds hg fun n _ => ?_
    unfold defineDeeds
    split
    · exact .nil
    · exact .single trivial
  | reset t generator => exact comes_targetDeeds hg fun n _ => comes_resetDeeds ..
  | setOption t name value =>
    exact comes_targetDeeds hg fun n hn => .single hn
  | build selector generator host options => exact comes_buildDeeds ..
  | construct selector generator host options parent =>
    show AllCome _ _ (σ.constructDeeds _ _ _ _ _)
    unfold constructDeeds
    split
    · exact comes_rootDeeds ..
    · rename_i p hp
      obtain ⟨handle, -, hf⟩ := Option.bind_eq_some_iff.1 hp
      have hlt : p < σ.store.next := (hg.handles p (mem_values_of_find? hf)).lt_next
      split
      · exact comes_fillDeeds (.sprouted _ p _ _ none) hlt _ _ _
      · exact .nil
  | create arguments host options => exact comes_createDeeds ..
  | obtain name host generator options => exact comes_obtainDeeds ..
  | render name host generator options => exact comes_obtainDeeds ..
  | _ => exact .nil

theorem comes_finishDeeds (purpose : Purpose) :
    AllCome next none (σ.finishDeeds purpose) := by
  cases purpose with
  | select child fragment className =>
    unfold finishDeeds
    simp only
    split
    · exact .single trivial
    · exact .nil
  | name n kind generator callee =>
    show AllCome next none (σ.namedDeeds n .null generator)
    exact comes_namedDeeds ..
  | _ => exact .nil

end Session

namespace Machine

variable {m : Machine}

/-- A statement begins in a session with the same rule sets, in which nothing refers to what was
never made. -/
theorem Grounded.task (h : m.Grounded) {σ : Session} {tag : Tag} {action : Action Datum (List Stmt)}
    (ht : m.task = .begin σ tag action) : σ.store = m.session.store ∧ σ.Grounded := by
  obtain ⟨m₀, s, settled, proceeds, he, -⟩ := proceeds_of_task ht
  have hf := (Session.keeps_evalAction s.action).follows he
  have h₀ : m₀.session.Grounded := by
    cases proceeds with
    | script => exact h.session
    | @body call below s rest calls statements =>
      refine h.session.of_calls fun c hc => ?_
      have hp := h.session.purposes
      rw [calls] at hp
      rcases List.mem_cons.1 hc with rfl | hc
      · exact hp call List.mem_cons_self
      · exact hp c (List.mem_cons_of_mem _ hc)
  exact ⟨hf.beside.store.trans proceeds.store, h₀.follows hf⟩

/-- Whatever a step does comes from what is there and from what its statement is given. -/
theorem comes_events (h : m.Grounded) {e : Event} (he : e ∈ m.events) :
    e.Comes m.session.store.next none ∨ ∃ σ tag action, m.task = .begin σ tag action ∧
      e.Comes m.session.store.next action.given? := by
  unfold events at he
  split at he
  · rename_i σ tag action ht
    obtain ⟨hs, hg⟩ := h.task ht
    exact .inr ⟨σ, tag, action, ht, hs ▸ (Session.comes_deeds hg action).all e he⟩
  · exact .inl ((Session.comes_finishDeeds _).all e he)
  · cases he

end Machine

end RuleTree
