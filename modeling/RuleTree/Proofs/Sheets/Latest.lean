import RuleTree.Proofs.Failure.Unwinding
import RuleTree.Proofs.Sheets.Cached
import RuleTree.Proofs.Sheets.Filing

/-!
# A registry is the map of the sheets last built

* `Machine.sheetEvent?`, `Machine.sheetHistory`: the event of the next step, and those of several
  steps;
* `SheetEvent.concerns`, `LastBuilt`: the sheet that was last built for a host, and neither released
  nor cleared since;
* `Session.Ranged`, `Machine.ranged`: the registries that names and calls lead to are there;
* `Machine.refiles_step`: a step files what was filed before, apart from what its event says;
* `Machine.filed_iff`: in a registry whose hosts are kept alive, a sheet is filed for a host if and
  only if it was last built for it.
-/

namespace RuleTree

/-- Whether an event may change the sheet of a host. -/
def SheetEvent.concerns (id : RegistryId) (h : Identity) : SheetEvent → Bool
  | built id' host _ => id' = id ∧ host = h
  | released id' host => id' = id ∧ host = h
  | cleared id' => id' = id

/-- A sheet was built for a host, and nothing that concerns the host came after. -/
def LastBuilt (id : RegistryId) (h : Identity) (sheet : NodeId) (events : List SheetEvent) : Prop :=
  ∃ before after, events = before ++ .built id h sheet :: after ∧
    ∀ e ∈ after, e.concerns id h = false

namespace LastBuilt

variable {id : RegistryId} {h : Identity} {sheet : NodeId} {events : List SheetEvent}
  {e : SheetEvent}

theorem concat_of_concerns (he : e.concerns id h = true) :
    LastBuilt id h sheet (events ++ [e]) ↔ e = .built id h sheet := by
  constructor
  · rintro ⟨before, after, heq, hafter⟩
    rcases List.eq_nil_or_concat after with rfl | ⟨after, last, rfl⟩
    · exact (List.append_inj_right' heq rfl |> List.cons.inj).1
    · rw [List.concat_eq_append] at heq hafter
      rw [← List.cons_append, ← List.append_assoc] at heq
      have hl := (List.cons.inj (List.append_inj_right' heq rfl)).1
      have hn := hafter last (List.mem_append_right _ List.mem_cons_self)
      rw [← hl, he] at hn
      cases hn
  · rintro rfl
    exact ⟨events, [], rfl, by simp⟩

theorem concat_of_not_concerns (he : e.concerns id h = false) :
    LastBuilt id h sheet (events ++ [e]) ↔ LastBuilt id h sheet events := by
  constructor
  · rintro ⟨before, after, heq, hafter⟩
    rcases List.eq_nil_or_concat after with rfl | ⟨after, last, rfl⟩
    · have hl := (List.cons.inj (List.append_inj_right' heq rfl)).1
      rw [hl] at he
      simp [SheetEvent.concerns] at he
    · rw [List.concat_eq_append] at heq hafter
      rw [← List.cons_append, ← List.append_assoc] at heq
      exact ⟨before, after, List.append_inj_left' heq rfl,
        fun e he => hafter e (List.mem_append_left _ he)⟩
  · rintro ⟨before, after, rfl, hafter⟩
    refine ⟨before, after ++ [e], by simp, fun e' he' => ?_⟩
    rcases List.mem_append.1 he' with he' | he'
    · exact hafter e' he'
    · exact List.mem_singleton.1 he' ▸ he

/-- What is filed after an event is the sheet last built, if so it was before. -/
theorem leaves_iff {before : Option NodeId}
    (hb : ∀ sheet, before = some sheet ↔ LastBuilt id h sheet events) (e : SheetEvent) :
    e.leaves id h before = some sheet ↔ LastBuilt id h sheet (events ++ [e]) := by
  cases hc : e.concerns id h with
  | true =>
    rw [concat_of_concerns hc]
    cases e with
    | built id' host n =>
      obtain ⟨rfl, rfl⟩ : id' = id ∧ host = h := of_decide_eq_true hc
      simp [SheetEvent.leaves]
    | released id' host =>
      obtain ⟨rfl, rfl⟩ : id' = id ∧ host = h := of_decide_eq_true hc
      simp [SheetEvent.leaves]
    | cleared id' =>
      obtain rfl : id' = id := of_decide_eq_true hc
      simp [SheetEvent.leaves]
  | false =>
    rw [concat_of_not_concerns hc, ← hb]
    have hl : e.leaves id h before = before := by
      cases e with
      | built id' host n => exact if_neg (of_decide_eq_false hc)
      | released id' host => exact if_neg (of_decide_eq_false hc)
      | cleared id' => exact if_neg (of_decide_eq_false hc)
    rw [hl]

end LastBuilt

namespace Session

/-- The registries that names and calls lead to are there. -/
structure Ranged (σ : Session) : Prop where
  named : σ.Named
  calls : ∀ c ∈ σ.calls, ∀ id, c.purpose.registry? = some id → id < σ.registries.size

theorem Named.lt_withRegistry {σ : Session} (h : σ.Named) (name : String) :
    (σ.withRegistry name).2 < (σ.withRegistry name).1.registries.size := by
  unfold withRegistry
  split
  · rename_i id hid
    exact h.names id (mem_values_of_find? hid)
  · show σ.registries.size < (σ.registries.push []).size
    rw [Array.size_push]
    exact Nat.lt_succ_self _

/-- A statement that waits for a body is at work on a registry that is there. -/
theorem Named.lt_of_begin {σ σ' : Session} (h : σ.Named) {action : Action Datum (List Stmt)}
    {purpose : Purpose} {body : List Stmt} (hb : σ.begin action = .enter σ' purpose body)
    {id : RegistryId} (hi : purpose.registry? = some id) : id < σ'.registries.size := by
  rcases amends_of_enter hb with ha | ⟨name, ha⟩
  · cases List.mem_singleton.1 (ha.registry σ' purpose body id hb hi)
    have hr := ha.session.registries
    rw [hb] at hr
    rw [show σ'.registries = σ.registries from hr]
    exact h.first
  · cases List.mem_singleton.1 (ha.registry σ' purpose body id hb hi)
    have hr := ha.session.registries
    rw [hb] at hr
    rw [show σ'.registries = (σ.withRegistry name).1.registries from hr]
    exact h.lt_withRegistry name

end Session

namespace Machine

/-! ### The events of a run -/

/-- What the next step does to registries. -/
def sheetEvent? (m : Machine) : Option SheetEvent :=
  match m.task with
  | .begin σ _ action => σ.sheetEvent? action
  | .finish call => call.purpose.sheetEvent?
  | _ => none

/-- What the next steps do to registries, in order. -/
def sheetHistory (steps : Nat) (m : Machine) : List SheetEvent :=
  (List.range steps).filterMap fun i => (run i m).sheetEvent?

theorem sheetHistory_succ (k : Nat) (m : Machine) :
    sheetHistory (k + 1) m = sheetHistory k m ++ ((run k m).sheetEvent?).toList := by
  unfold sheetHistory
  rw [List.range_succ, List.filterMap_append]
  cases h : (run k m).sheetEvent? <;> simp [h]

/-! ### Steps -/

theorem task_of_proceeds {m m₀ : Machine} {tag : Tag} {s : Stmt} (hs : m.settled = none)
    (h : m.Proceeds m₀ tag s) : m.task = taskOf m₀.session tag s.action := by
  unfold task
  cases h with
  | script calls steps => simp only [hs, calls, steps]
  | body calls statements => simp only [hs, calls, statements]

/-- The hosts of a registry stay alive when a statement is about to begin. -/
theorem Proceeds.keeps {m m₀ : Machine} {tag : Tag} {s : Stmt} (h : m.Proceeds m₀ tag s)
    {id : RegistryId} (hk : m.session.Keeps id) : m₀.session.Keeps id := by
  cases h with
  | script => exact hk
  | @body call below s rest calls statements =>
    refine hk.congr (Session.living_congr ?_ rfl rfl ?_) rfl rfl
    · unfold Session.roots
      rw [calls]
      rfl
    · unfold Session.openEntries Session.openRegistries
      rw [calls]
      rfl

/-- A step files what was filed before, apart from what its event says. -/
theorem refiles_step {m : Machine} (hr : m.session.Ranged) :
    m.session.Refiles m.step.session m.sheetEvent? := by
  cases m.turn with
  | @settle tag r settled step =>
    have ht : m.sheetEvent? = none := by
      unfold sheetEvent? task
      rw [settled]
    obtain ⟨handles, saved, hk⟩ := keepResult_eq m.session tag r
    rw [ht, step]
    unfold Machine.settle record
    rw [hk]
    simp only
    split <;> exact .still rfl rfl
  | @begin m₀ tag s settled proceeds step =>
    have ht := task_of_proceeds settled proceeds
    have h₀ : m.session.Refiles m₀.session none := by cases proceeds <;> exact .still rfl rfl
    rw [beginStmt_eq] at step
    unfold sheetEvent?
    unfold taskOf at ht
    rw [ht, step]
    cases he : Session.evalAction s.action m₀.session with
    | error e => exact h₀
    | ok p =>
      obtain ⟨action, σ⟩ := p
      have hb := (Session.keeps_evalAction s.action).beside he
      have hreg : σ.registries = m.session.registries ∧
          σ.registryNames = m.session.registryNames := by
        obtain ⟨_, _, _, _, rfl⟩ := hb
        cases proceeds <;> exact ⟨rfl, rfl⟩
      refine .of_still hreg.1 hreg.2 (fun id hk => (proceeds.keeps hk).of_beside hb) ?_
      obtain ⟨hr, hn⟩ := registries_perform { m₀ with session := σ } tag action
      exact (σ.refiles_begin action).and_still hr hn
  | @finish call below settled calls rest step =>
    have ht : m.sheetEvent? = call.purpose.sheetEvent? := by
      unfold sheetEvent? task
      simp only [settled, calls, rest]
    have hc : ∀ id, call.purpose.registry? = some id → id < m.session.registries.size :=
      hr.calls call (calls ▸ List.mem_cons_self)
    rw [ht, step]
    refine (m.session.refiles_finish hc).and_still ?_ ?_
    · unfold finishCall
      cases m.session.finish call.purpose <;> rfl
    · unfold finishCall
      cases m.session.finish call.purpose <;> rfl
  | idle settled calls steps step =>
    have ht : m.sheetEvent? = none := by
      unfold sheetEvent? task
      simp only [settled, calls, steps]
    rw [ht, step]
    exact .still rfl rfl

theorem ranged_step {m : Machine} (hr : m.session.Ranged) : m.step.session.Ranged := by
  have hf := refiles_step hr
  have old {purpose : Purpose} (hp : purpose ∈ m.session.calls.map Call.purpose) {id : RegistryId}
      (hi : purpose.registry? = some id) : id < m.step.session.registries.size := by
    obtain ⟨c, hc, rfl⟩ := List.mem_map.1 hp
    exact Nat.lt_of_lt_of_le (hr.calls c hc id hi) hf.size
  refine ⟨hf.named hr.named, fun c hc id hi => ?_⟩
  cases m.callCases with
  | same advanced => exact old (advanced.purposes ▸ List.mem_map_of_mem hc) hi
  | fail call below e calls popped =>
    rw [popped] at hc
    exact old (calls ▸ List.mem_map_of_mem (List.mem_cons_of_mem _ hc)) hi
  | ended call below σ' r calls done session =>
    rw [session] at hc
    exact old (calls ▸ List.mem_map_of_mem (List.mem_cons_of_mem _ hc)) hi
  | push m₀ tag s action σ σ' purpose body proceeds eval enter settled session pushed =>
    rw [pushed] at hc
    rcases List.mem_cons.1 hc with rfl | hc
    · have hσ : σ.Named := by
        obtain ⟨_, _, _, _, rfl⟩ := (Session.keeps_evalAction s.action).beside eval
        cases proceeds <;> exact ⟨hr.named.first, hr.named.names⟩
      rw [session]
      exact hσ.lt_of_begin enter hi
    · exact old (proceeds.purposes ▸ List.mem_map_of_mem hc) hi
  | turn call below σ' purpose body calls enter settled session turned =>
    rw [turned] at hc
    rcases List.mem_cons.1 hc with rfl | hc
    · cases (Session.amends_of_finish enter).registry σ' purpose body id enter hi
    · exact old (calls ▸ List.mem_map_of_mem (List.mem_cons_of_mem _ hc)) hi

theorem ranged (s : Script) (k : Nat) : (run k (load s)).session.Ranged := by
  induction k with
  | zero =>
    refine ⟨⟨Nat.zero_lt_one, fun id hid => ?_⟩, fun c hc => by cases hc⟩
    cases List.mem_singleton.1 (show id ∈ [firstRegistry] from hid)
    exact Nat.zero_lt_one
  | succ k ih =>
    rw [run_step]
    exact ranged_step ih

/-- In a registry whose hosts are kept alive, what is filed is what was last built. -/
theorem filed_iff (s : Script) (k : Nat) (id : RegistryId)
    (keeps : ∀ j ≤ k, (run j (load s)).session.Keeps id) :
    (((run k (load s)).session.filedEntries id).map Entry.host).Nodup ∧
      ∀ h n, (run k (load s)).session.filed id h = some n ↔
        LastBuilt id h n (sheetHistory k (load s)) := by
  induction k with
  | zero =>
    have he : (run 0 (load s)).session.filedEntries id = [] := by
      show (#[[]] : Array Registry)[id]?.getD [] = []
      cases id <;> rfl
    refine ⟨by rw [he]; exact List.nodup_nil, fun h n => ?_⟩
    unfold Session.filed
    rw [he]
    constructor
    · intro hc
      cases hc
    · rintro ⟨before, after, hc, -⟩
      cases before <;> cases hc
  | succ k ih =>
    obtain ⟨hd, hf⟩ := ih fun j hj => keeps j (Nat.le_succ_of_le hj)
    have hk := keeps k (Nat.le_succ k)
    have hr := refiles_step (ranged s k)
    rw [run_step, sheetHistory_succ]
    refine ⟨hr.single id hk hd, fun h n => ?_⟩
    rw [hr.filed id hk hd h]
    cases he : (run k (load s)).sheetEvent? with
    | none =>
      rw [Option.toList_none, List.append_nil]
      exact hf h n
    | some e => exact LastBuilt.leaves_iff (hf h) e

end Machine

/-! ### Registries as maps -/

/-- Answering as the map of some sheets. -/
structure Session.Maps (σ : Session) (id : RegistryId) (holds : Identity → NodeId → Prop) :
    Prop where
  sheet : ∀ h n, σ.sheet? id h = some n ↔ holds h n
  lookup : ∀ d h, σ.asHost d = .ok h → ∃ found : Option NodeId,
    σ.lookup id d = .ok (.node? found) ∧ ∀ n, found = some n ↔ holds h n
  contains : ∀ d h, σ.asHost d = .ok h → ∃ b : Bool,
    σ.containsHost id d = .ok (.bool b) ∧ (b = true ↔ ∃ n, holds h n)
  /-- there are as many entries as hosts that have a sheet -/
  length : ∃ hosts : List Identity, hosts.Nodup ∧ hosts.length = (σ.entries id).length ∧
    ∀ h, h ∈ hosts ↔ ∃ n, holds h n

theorem Session.maps_of_filed {σ : Session} {id : RegistryId} {holds : Identity → NodeId → Prop}
    (hk : σ.Keeps id) (hd : ((σ.filedEntries id).map Entry.host).Nodup)
    (hf : ∀ h n, σ.filed id h = some n ↔ holds h n) : σ.Maps id holds := by
  have hs (h : Identity) (n : NodeId) : σ.sheet? id h = some n ↔ holds h n := by
    rw [hk.sheet?_eq]
    exact hf h n
  refine ⟨hs, fun d h hh => ⟨σ.sheet? id h, ?_, hs h⟩, fun d h hh => ⟨(σ.sheet? id h).isSome, ?_, ?_⟩,
    ⟨(σ.filedEntries id).map Entry.host, hd, ?_, fun h => ?_⟩⟩
  · unfold lookup
    rw [hh]
    rfl
  · unfold containsHost
    rw [hh]
  · rw [Option.isSome_iff_exists]
    exact exists_congr (hs h)
  · rw [List.length_map, hk.entries_eq]
  · rw [← Registry.isSome_find?_iff, Option.isSome_iff_exists]
    exact exists_congr (hf h)

namespace Machine

/-- In a registry whose hosts are kept alive and compared by identity, the style sheet of a host is
the one that was last built for it, unless the host was released or the registry cleared since. What
concerns another host or another registry changes nothing, and nothing is kept by a statement that
is completed. A sheet that is kept is reset whatever the options, and if that succeeds it is the
result. -/
theorem maps_lastBuilt (s : Script) (k : Nat) (id : RegistryId)
    (keeps : ∀ j ≤ k, (run j (load s)).session.Keeps id) :
    (run k (load s)).session.Maps id (fun h n => LastBuilt id h n (sheetHistory k (load s))) ∧
    (∀ j < k, ∀ h, (∀ e, (run j (load s)).sheetEvent? = some e → e.concerns id h = false) →
      (run (j + 1) (load s)).session.sheet? id h = (run j (load s)).session.sheet? id h) ∧
    (∀ j, (run j (load s)).settled ≠ none → (run j (load s)).sheetEvent? = none) ∧
    ∀ (m m' : Machine) (tag : Tag) (name : String) (host generator : Datum)
      (options : List (String × Datum)) (h : Identity) (sheet : NodeId),
      (m.session.withRegistry name).1.asHost host = .ok h →
      (m.session.withRegistry name).1.sheet? (m.session.withRegistry name).2 h = some sheet →
      (∀ r, m.Performs tag (.obtain name host generator options) (.ok r) m' →
        r = .value (.node sheet)) ∧
      (∀ r, m.Performs tag (.render name host generator options) (.ok r) m' →
        ∃ text, m'.session.css sheet = .ok text ∧ r = .text text) ∧
      (Session.hasAny (.ofList options) [Session.hostOption, "generate", "self"] = false →
        m.session.begin (.obtain name host generator options) =
          m.session.begin (.obtain name host generator [])) := by
  have hmaps (j : Nat) (hj : j ≤ k) : (run j (load s)).session.Maps id
      (fun h n => LastBuilt id h n (sheetHistory j (load s))) := by
    obtain ⟨hd, hf⟩ := filed_iff s j id fun i hi => keeps i (Nat.le_trans hi hj)
    exact Session.maps_of_filed (keeps j hj) hd hf
  refine ⟨hmaps k (Nat.le_refl k), fun j hj h he => ?_, fun j hj => ?_, ?_⟩
  · ext n
    rw [(hmaps (j + 1) hj).sheet, (hmaps j (Nat.le_of_lt hj)).sheet, sheetHistory_succ]
    cases hev : (run j (load s)).sheetEvent? with
    | none => rw [Option.toList_none, List.append_nil]
    | some e => exact LastBuilt.concat_of_not_concerns (he e hev)
  · obtain ⟨p, hp⟩ := Option.ne_none_iff_exists'.1 hj
    unfold sheetEvent? task
    rw [hp]
  · intro m m' tag name host generator options h sheet hh hs
    refine ⟨fun r hr => ?_, fun r hr => ?_, fun ho => ?_⟩
    · cases hr.of_cached hh hs rfl
      rfl
    · have ho : m'.session.output sheet .css = .ok r := hr.of_cached hh hs rfl
      simp only [Session.output] at ho
      cases hc : m'.session.css sheet with
      | error e => rw [hc] at ho; cases ho
      | ok text =>
        rw [hc] at ho
        cases ho
        exact ⟨text, rfl, rfl⟩
    · show (m.session.withRegistry name).1.obtain (m.session.withRegistry name).2 host generator
          (.ofList options) .node =
        (m.session.withRegistry name).1.obtain (m.session.withRegistry name).2 host generator
          (.ofList []) .node
      rw [Session.obtain_of_cached hh hs, Session.obtain_of_cached hh hs, ho]
      rfl

end Machine

/-- A script that builds the sheet of a host while it is being built, and fails to reset it. -/
def Script.rebuilding : Script where
  steps := [
    .mk (.makeHost "button" .plain) none none,
    .mk (.obtain defaultRegistry (.host "button") (.inline [
      .mk (.obtain defaultRegistry (.host "button") (.inline [
        .mk (.write (.enclosing 0) (.text "a;")) none none]) []) none none]) []) none none,
    .mk (.obtain defaultRegistry (.host "button") (.inline [
      .mk (.raise "unfinished") none none]) [("unknown", .null)]) none none]
  generators := .empty
  logs := false

/-- The outer build ends last, and the failing reset changes nothing. -/
theorem Machine.maps_lastBuilt_rebuilding :
    (∀ j ≤ 14, (run j (load .rebuilding)).session.Keeps firstRegistry) ∧
      sheetHistory 14 (load .rebuilding) =
        [.built firstRegistry (.host 0) 1, .built firstRegistry (.host 0) 0] ∧
      (run 14 (load .rebuilding)).session.sheet? firstRegistry (.host 0) = some 0 := by
  have keeps : ∀ j ≤ 14, (run j (load .rebuilding)).session.Keeps firstRegistry := fun j hj =>
    have distinct : ∀ j ≤ 14, (run j (load .rebuilding)).session.Distinct := by decide +kernel
    have held : ∀ j ≤ 14, ∀ e ∈ (run j (load .rebuilding)).session.filedEntries firstRegistry,
        e.host ∈ (run j (load .rebuilding)).session.roots := by decide +kernel
    (distinct j hj).keeps (held j hj)
  have history : sheetHistory 14 (load .rebuilding) =
      [.built firstRegistry (.host 0) 1, .built firstRegistry (.host 0) 0] := by decide +kernel
  refine ⟨keeps, history, ?_⟩
  refine ((maps_lastBuilt _ 14 _ keeps).1.sheet _ _).2 ?_
  exact ⟨[.built firstRegistry (.host 0) 1], [], history, nofun⟩

end RuleTree
