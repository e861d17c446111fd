import RuleTree.Proofs.Calls.Perform
import RuleTree.Session.Begin

/-!
# Sheets that are kept

* `Start.Waits`: a start that does not succeed at once; `Session.waits_reset` and the like: running
  a generator is such a start;
* `Session.obtain_of_cached`: obtaining a sheet that is kept looks at no option and resets it;
* `Machine.Performs.of_cached`: if that succeeds, it gives the very sheet, or its text.
-/

namespace RuleTree

/-- A start that either fails or waits for a body. -/
def Start.Waits (st : Start) : Prop := ∀ σ r, st = .done σ r → ∃ e, r = .error e

namespace Session

theorem waits_refuse (σ : Session) (e : Error) : (Start.refuse σ e).Waits := by
  rintro σ' r h
  cases h
  exact ⟨e, rfl⟩

theorem waits_launch (σ : Session) (purpose : Purpose) (generator : Datum) (n : NodeId) :
    (σ.launch purpose generator n).Waits := by
  unfold launch
  split
  · rintro σ' r h
    cases h
  · exact waits_refuse _ _
  · rintro σ' r h
    cases h

theorem waits_reset (σ : Session) (n : NodeId) (registry : Option RegistryId) (output : Output)
    (generator : Datum) : (σ.reset n registry output generator).Waits := by
  unfold reset
  split
  · simp only
    split
    · exact waits_refuse _ _
    · exact waits_launch _ _ _ _
  · exact waits_refuse _ _

/-- What a reset waits for is to be over with the reset. -/
theorem purpose_of_reset {σ σ' : Session} {n : NodeId} {registry : Option RegistryId}
    {output : Output} {generator : Datum} {purpose : Purpose} {body : List Stmt}
    (h : σ.reset n registry output generator = .enter σ' purpose body) :
    purpose = .reset n registry output := by
  unfold reset at h
  split at h
  · simp only at h
    split at h
    · cases h
    · unfold launch at h
      split at h <;> cases h <;> rfl
  · cases h

/-- To obtain a sheet that is kept is to reset it, whatever the options. Only the names of arguments
are refused as options. -/
theorem obtain_of_cached {σ : Session} {id : RegistryId} {host generator : Datum} {h : Identity}
    {sheet : NodeId} (hh : σ.asHost host = .ok h) (hs : σ.sheet? id h = some sheet)
    (options : Table Datum) (output : Output) :
    σ.obtain id host generator options output =
      if hasAny options [hostOption, "generate", "self"] then .refuse σ .badArguments
      else if σ.callable generator then
        match σ.record .resettingSheet host with
        | .error e => .refuse σ e
        | .ok σ => σ.reset sheet (some id) output generator
      else .refuse σ .missingGenerator := by
  unfold obtain
  cases σ.record .resettingSheet host <;> simp only [hh, hs]

theorem waits_obtain_of_cached {σ : Session} {id : RegistryId} {host generator : Datum}
    {h : Identity} {sheet : NodeId} (hh : σ.asHost host = .ok h)
    (hs : σ.sheet? id h = some sheet) (options : Table Datum) (output : Output) :
    (σ.obtain id host generator options output).Waits ∧
      ∀ σ' purpose body, σ.obtain id host generator options output = .enter σ' purpose body →
        purpose = .reset sheet (some id) output := by
  rw [obtain_of_cached hh hs]
  split
  · exact ⟨waits_refuse _ _, nofun⟩
  · split
    · cases σ.record .resettingSheet host with
      | error e => exact ⟨waits_refuse _ _, nofun⟩
      | ok σ₁ => exact ⟨waits_reset _ _ _ _ _, fun σ' purpose body h => purpose_of_reset h⟩
    · exact ⟨waits_refuse _ _, nofun⟩

end Session

namespace Machine

/-- If the sheet of a host is kept, then obtaining it gives this sheet if it succeeds, or its text
as it is then. -/
theorem Performs.of_cached {m m' : Machine} {tag : Tag} {action : Action Datum (List Stmt)}
    {r : Result} (h : m.Performs tag action (.ok r) m') {σ : Session} {id : RegistryId}
    {host generator : Datum} {options : Table Datum} {output : Output} {i : Identity}
    {sheet : NodeId} (hh : σ.asHost host = .ok i) (hs : σ.sheet? id i = some sheet)
    (hb : m.session.begin action = σ.obtain id host generator options output) :
    m'.session.output sheet output = .ok r := by
  obtain ⟨hwaits, hpurpose⟩ :=
    @Session.waits_obtain_of_cached σ id host generator i sheet hh hs options output
  cases ho : m.session.begin action with
  | done σ₁ r' =>
    obtain ⟨e, rfl⟩ := hwaits σ₁ r' (hb.symm.trans ho)
    cases h.of_done ho
  | enter σ₁ purpose body =>
    obtain rfl := hpurpose σ₁ purpose body (hb.symm.trans ho)
    rcases h.ends ho (Purpose.steady_reset _ _ _) with ⟨e, he⟩ | ⟨σ', σ'', hf, hσ⟩
    · cases he
    · simp only [Session.finish, Start.answer, Start.done.injEq] at hf
      rw [hσ, ← hf.1, ← hf.2]
      cases output <;> rfl

end Machine

end RuleTree
