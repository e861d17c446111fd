import RuleTree.Proofs.Scopes.Evaluated
import RuleTree.Session.Select

/-!
# Generators and selections of two runs

* `Result.Tallies`, `Start.Tallies`: statements that begin or go on alike;
* `Applied.Tallies`, `Session.Tallies.apply`: what is called gives the same, or runs the same
  statements but for the values that they define;
* `Session.Tallies.launch`, `Session.Tallies.fill`, `Session.Tallies.reset`: so generators are run
  alike;
* `Session.discreetCall`: a selection that spells no label of a rule set;
* `Session.Tallies.callMethod`: such a selection begins alike.
-/

namespace RuleTree

variable {μ ν : Matching}

/-- Being the same result but for numbers. What tells of scopes is none of these. -/
inductive Result.Tallies (μ : Matching) : Result → Result → Prop
  | value {d d' : Datum} (h : d.Tallies μ d') : Tallies μ (.value d) (.value d')
  | written (text : String) : Tallies μ (.written text) (.written text)
  | options (listed : List (String × Picture)) : Tallies μ (.options listed) (.options listed)
  | caught (e : Option Error) : Tallies μ (.caught e) (.caught e)

/-- Being done with the same result, or waiting for the same body for the same purpose, but for
numbers and for values that are passed to definitions. -/
inductive Start.Tallies (μ : Matching) : Start → Start → Prop
  | done {ν : Matching} {σ σ' : Session} {r r' : Except Error Result} (le : μ.Le ν)
    (session : σ.Tallies ν σ') (result : Both (Result.Tallies ν) r r') :
    Tallies μ (.done σ r) (.done σ' r')
  | enter {ν : Matching} {σ σ' : Session} {p p' : Purpose} {b b' : List Stmt} (le : μ.Le ν)
    (session : σ.Tallies ν σ') (purpose : p.Tallies ν p') (body : Body.Varies b b') :
    Tallies μ (.enter σ p b) (.enter σ' p' b')

/-- What is called gives the same in two runs, but for numbers. -/
inductive Applied.Tallies (μ : Matching) : Applied → Applied → Prop
  | gives {ν : Matching} {σ σ' : Session} {d d' : Datum} (le : μ.Le ν) (session : σ.Tallies ν σ')
    (value : d.Tallies ν d') : Tallies μ (.gives σ d) (.gives σ' d')
  | fails (e : Error) : Tallies μ (.fails e) (.fails e)
  | runs {b b' : List Stmt} (body : Body.Varies b b') : Tallies μ (.runs b) (.runs b')

namespace Result.Tallies

variable {r r' : Result}

theorem mono (hle : μ.Le ν) (h : r.Tallies μ r') : r.Tallies ν r' := by
  cases h with
  | value h => exact .value (h.mono hle)
  | written text => exact .written text
  | options listed => exact .options listed
  | caught e => exact .caught e

theorem datum (h : r.Tallies μ r') : r.datum.Tallies μ r'.datum := by
  cases h with
  | value h => exact h
  | _ => exact .answer _

theorem nothing : Result.nothing.Tallies μ Result.nothing := .value .null

theorem bool (b : Bool) : (Result.bool b).Tallies μ (.bool b) := .value (.bool b)

theorem text (s : String) : (Result.text s).Tallies μ (.text s) := .value (.text s)

theorem node? (n : Option NodeId) : (Result.node? n).Tallies μ (.node? n) := by
  cases n with
  | none => exact .value .null
  | some n => exact .value (.node n)

/-- Texts that are the same, or errors that are, as results. -/
theorem texts {x y : Except Error String} (h : x = y) :
    Both (Result.Tallies μ) (x.map .text) (y.map .text) := .map_of_eq h text

end Result.Tallies

namespace Start.Tallies

variable {s s' : Start} {σ σ' : Session}

theorem later (hle : μ.Le ν) (h : s.Tallies ν s') : s.Tallies μ s' := by
  cases h with
  | done le session result => exact .done (hle.trans le) session result
  | enter le session purpose body => exact .enter (hle.trans le) session purpose body

theorem answer (h : σ.Tallies μ σ') {r r' : Except Error Result}
    (hr : Both (Result.Tallies μ) r r') :
    (Start.answer σ r).Tallies μ (Start.answer σ' r') := .done (.refl μ) h hr

theorem refuse (h : σ.Tallies μ σ') (e : Error) :
    (Start.refuse σ e).Tallies μ (Start.refuse σ' e) := .done (.refl μ) h (.error e)

end Start.Tallies

namespace Session.Tallies

variable {σ σ' : Session} {d d' c c' : Datum}

/-! ### Calling values -/

theorem apply (h : σ.Tallies μ σ') (hc : c.Tallies μ c') (hd : d.Tallies μ d') :
    (σ.apply c d).Tallies μ (σ'.apply c' d') := by
  cases hc with
  | generator hg => exact .runs (h.bodyOf hg)
  | host id =>
    unfold Session.apply
    simp only
    have hk := h.hostKind id
    revert hk
    generalize σ.hostKind id = k, σ'.hostKind id = k'
    intro hk
    cases hk with
    | callable =>
      -- called on a rule set, the host writes its name
      cases hd with
      | node n =>
        have hw := h.store.write n (.text (σ.hostText id))
        simp only
        rw [show σ'.hostText id = σ.hostText id by unfold Session.hostText; rw [h.hostName]]
        revert hw
        generalize σ.store.write n _ = x, σ'.store.write n _ = y
        rintro (e | hs)
        · exact .fails _
        · exact .gives (.refl μ) { h with store := hs } .null
      | _ => exact .fails _
    | empty => exact .gives (.refl μ) h (.host id)
    | _ => exact .fails _
  | naming rule hs =>
    unfold Session.apply
    simp only
    rw [h.kindName? hd]
    have hn := (tallies_className h rule (σ'.kindName? d')).both
    revert hn
    generalize className rule _ σ = x, className rule _ σ' = y
    rintro (e | ⟨ν, hle, hs, hv⟩)
    · exact .fails _
    · exact .gives hle hs hv
  | _ => exact .fails _

theorem launch (h : σ.Tallies μ σ') {p p' : Purpose} (hp : p.Tallies μ p') (hd : d.Tallies μ d')
    (n : NodeId) : (σ.launch p d n).Tallies μ (σ'.launch p' d' n) := by
  have ha := h.apply hd (.node n)
  unfold Session.launch
  revert ha
  generalize σ.apply d (.node n) = x, σ'.apply d' (.node n) = y
  intro ha
  cases ha with
  | gives le session => exact .enter le session (hp.mono le) .nil
  | fails e => exact .refuse h e
  | runs body => exact .enter (.refl μ) h hp body

theorem fill (h : σ.Tallies μ σ') {s s' : Store} (hs : s.Tallies μ s') (n : NodeId) {p p' : Purpose}
    (hp : p.Tallies μ p') (hd : d.Tallies μ d') :
    (σ.fill s n p d).Tallies μ (σ'.fill s' n p' d') := by
  let σ₁ : Session := { σ with store := s }
  let σ₁' : Session := { σ' with store := s' }
  have h₁ : σ₁.Tallies μ σ₁' := { h with store := hs }
  have hr := h₁.record .generating (hs.get n).selector
  generalize hx : σ₁.record .generating (s.get n).selector = x,
    hy : σ₁'.record .generating (s'.get n).selector = y at hr
  cases hr with
  | error e =>
    rw [fill_of_error hx, fill_of_error hy]
    exact .refuse h₁ e
  | ok h₂ =>
    rw [fill_of_ok hx, fill_of_ok hy]
    exact h₂.launch hp hd n

theorem reset (h : σ.Tallies μ σ') (n : NodeId) (registry : Option RegistryId) (out : Output)
    (hd : d.Tallies μ d') :
    (σ.reset n registry out d).Tallies μ (σ'.reset n registry out d') := by
  let σ₁ : Session := { σ with store := σ.store.clearForReset n }
  let σ₁' : Session := { σ' with store := σ'.store.clearForReset n }
  have hs := h.store.clearForReset h.counts.naming n
  have h₁ : σ₁.Tallies μ σ₁' := { h with store := hs }
  have hr := h₁.record .resetting (hs.get n).selector
  have hc := h.callable hd
  cases hk : σ'.callable d' with
  | false =>
    have hf : ¬ σ'.callable d' = true := by simp [hk]
    unfold Session.reset
    rw [hc, if_neg hf, if_neg hf]
    exact .refuse h _
  | true =>
    generalize hx : σ₁.record .resetting _ = x, hy : σ₁'.record .resetting _ = y at hr
    cases hr with
    | error e =>
      rw [reset_of_error (hc.trans hk) hx, reset_of_error hk hy]
      exact .refuse h₁ e
    | ok h₂ =>
      rw [reset_of_ok (hc.trans hk) hx, reset_of_ok hk hy]
      exact h₂.launch (.reset n registry out) hd n

/-! ### Selecting -/

variable {f f' : Datum} {g g' : Option Datum}

theorem selectFrom (h : σ.Tallies μ σ') (n : NodeId) {k k' : Option Datum}
    (hk : Option.Rel (Datum.Tallies μ) k k') (hf : f.Tallies μ f')
    (hg : Option.Rel (Datum.Tallies μ) g g') :
    (σ.selectFrom n k f g).Tallies μ (σ'.selectFrom n k' f' g') := by
  have fragment : (Start.answer σ (.ok (.value f))).Tallies μ (Start.answer σ' (.ok (.value f'))) :=
    .answer h (.ok (.value hf))
  cases hg with
  | none => exact fragment
  | some hg =>
    unfold Session.selectFrom
    simp only
    rw [hg.isNull]
    split
    · exact fragment
    · obtain ⟨ν, hle, hs, h₁⟩ := h.newStamp
      have hp := ((h.store.get n).selector.mono hle).plus (hf.mono hle) hs
      revert hp
      generalize (σ.store.get n).selector.plus σ.stamps f = x,
        (σ'.store.get n).selector.plus σ'.stamps f' = y
      rintro (e | hsel)
      · exact .refuse h e
      · simp only
        rw [h.callable hg, h.store.next]
        split
        · refine .later hle (h₁.fill (h₁.store.sprout hsel .none n) _ ?_ (hg.mono hle))
          exact .select _ (hf.mono hle) (hk.mono fun _ _ => .mono hle)
        · exact .refuse h _

theorem selectNamed (h : σ.Tallies μ σ') (hs : σ.store.silent = true) (n : NodeId)
    (hc : c.Tallies μ c') (hu : c.unnested = true) (hg : Option.Rel (Datum.Tallies μ) g g') :
    (σ.selectNamed n c g).Tallies μ (σ'.selectNamed n c' g') := by
  have hf := hc.fragmentOf (h.appearance hs) .kind fun _ => hu
  unfold Session.selectNamed
  revert hf
  generalize Method.kind.fragmentOf σ.appearance c = x, Method.kind.fragmentOf σ'.appearance c' = y
  rintro (e | hf)
  · exact .refuse h e
  · exact h.selectFrom n (.some hc) hf hg

theorem selectBy (h : σ.Tallies μ σ') (hs : σ.store.silent = true) (n : NodeId) (m : Method)
    (hd : d.Tallies μ d') (hu : m.spells = true → d.unnested = true)
    (hg : Option.Rel (Datum.Tallies μ) g g') :
    (σ.selectBy n m d g).Tallies μ (σ'.selectBy n m d' g') := by
  have hf := hd.fragmentOf (h.appearance hs) m hu
  unfold Session.selectBy
  revert hf
  generalize m.fragmentOf σ.appearance d = x, m.fragmentOf σ'.appearance d' = y
  rintro (e | hf)
  · exact .refuse h e
  · exact h.selectFrom n .none hf hg

end Session.Tallies

namespace Session

/-- Calling a value changes no options. -/
theorem options_of_apply {σ σ₁ : Session} {c d v : Datum} (h : σ.apply c d = .gives σ₁ v) :
    σ₁.store.options = σ.store.options := by
  obtain ⟨trail, -, -, -⟩ := turns_of_gives h
  have wrote : ∀ e ∈ σ.callDeeds c d, ∃ n text, e = .wrote n text := by
    unfold callDeeds
    split
    · split <;> simp
    · simp
  revert trail wrote
  generalize σ.callDeeds c d = events, σ.store = s, σ₁.store = t
  intro trail wrote
  induction trail with
  | nil => rfl
  | cons he _ ih =>
    rw [List.forall_mem_cons] at wrote
    obtain ⟨n, text, rfl⟩ := wrote.1
    rw [ih wrote.2]
    cases he
    rfl

/-- A method called on a rule set that shows no label of a rule set: neither by spelling its
argument nor by spelling the class name that its argument is given. -/
def discreetCall (σ : Session) (n : NodeId) (name : String) (argument generator : Option Datum) :
    Bool :=
  match Method.named name with
  | .error _ => true
  | .ok m =>
    match m.bind argument generator with
    | .error _ => true
    | .ok (argument, _) =>
      let d := argument.getD .null
      if m = .kind then
        match σ.apply (σ.store.optionsOf n).className d with
        | .gives _ className => className.unnested
        | _ => true
      else !m.spells || d.unnested

namespace Tallies

variable {σ σ' : Session} {d d' : Datum} {a a' g g' : Option Datum}

theorem selectKind (h : σ.Tallies μ σ') (hs : σ.store.silent = true) (n : NodeId)
    (hd : d.Tallies μ d') (hg : Option.Rel (Datum.Tallies μ) g g')
    (hu : ∀ σ₁ c, σ.apply (σ.store.optionsOf n).className d = .gives σ₁ c → c.unnested = true) :
    (σ.selectKind n d g).Tallies μ (σ'.selectKind n d' g') := by
  have hcallee := (h.store.optionsOf h.counts.naming n).className
  have ha := h.apply hcallee hd
  have ho := @options_of_apply σ
  unfold Session.selectKind
  simp only
  revert ha hu
  generalize hx : σ.apply (σ.store.optionsOf n).className d = x,
    σ'.apply (σ'.store.optionsOf n).className d' = y
  intro hu ha
  cases ha with
  | gives le session value =>
    -- the callee may have written, but not set any options
    refine .later le (session.selectNamed ?_ n value (hu _ _ rfl) (hg.mono fun _ _ => .mono le))
    unfold Store.silent
    rw [ho hx]
    exact hs
  | fails e => exact .refuse h e
  | runs body => exact .enter (.refl μ) h (.name n hd hg hcallee) body

/-- A selection that shows no label begins alike. -/
theorem callMethod (h : σ.Tallies μ σ') (hs : σ.store.silent = true) (n : NodeId) (name : String)
    (ha : Option.Rel (Datum.Tallies μ) a a') (hg : Option.Rel (Datum.Tallies μ) g g')
    (hu : σ.discreetCall n name a g = true) :
    (σ.callMethod n name a g).Tallies μ (σ'.callMethod n name a' g') := by
  revert hu
  unfold discreetCall Session.callMethod
  cases Method.named name with
  | error e => exact fun _ => .refuse h e
  | ok m =>
    simp only
    rcases m.bind_rel ha hg with ⟨e, he, he'⟩ | ⟨b, b', k, k', hb, hb', ha, hg⟩
    · rw [he, he']
      exact fun _ => .refuse h e
    · rw [hb, hb']
      intro hu
      simp only at hu ⊢
      have hd : (b.getD .null).Tallies μ (b'.getD .null) := ha.getD .null
      by_cases hk : m = .kind
      · rw [if_pos hk] at hu
        rw [if_pos hk, if_pos hk]
        refine h.selectKind hs n hd hg fun σ₁ c hc => ?_
        rw [hc] at hu
        exact hu
      · rw [if_neg hk] at hu
        rw [if_neg hk, if_neg hk]
        refine h.selectBy hs n m hd (fun hm => ?_) hg
        rw [hm] at hu
        exact hu

end Tallies

end Session

end RuleTree
