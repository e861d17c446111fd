import RuleTree.Session.Eval

/-!
# What working out arguments leaves alone

* `Session.Beside`: two sessions that differ in nothing but the numbers given out, further
  generators written in place, and the log;
* `Session.Follows`: besides, no number is given out again;
* `Session.Eval.Keeps`: a computation that leads to such a session only, with the same log;
* `Session.keeps_eval`, `Session.keeps_className`, `Session.keeps_evalAction`: the computations of
  statements are such ones, and so is a record in the log.

Thus arguments never touch rule sets, calls in progress or iterations.
-/

namespace RuleTree

namespace Session

/-- Differing in nothing but the numbers given out, further generators written in place, and the
log, which is kept or not as before. -/
def Beside (σ σ' : Session) : Prop :=
  ∃ stamps added log, log.isSome = σ.log.isSome ∧
    σ' = { σ with stamps, bodies := σ.bodies ++ added, log }

namespace Beside

variable {σ σ₁ σ₂ : Session}

/-- A session with other numbers and another log, but no further generators, is beside this one. -/
theorem of_log (σ : Session) (stamps : Stamp) {log : Option (Array LogRecord)}
    (h : log.isSome = σ.log.isSome) : Beside σ { σ with stamps, log } :=
  ⟨stamps, #[], log, h, by rw [Array.append_empty]⟩

theorem refl (σ : Session) : Beside σ σ := .of_log σ σ.stamps rfl

theorem trans (h : Beside σ σ₁) (h' : Beside σ₁ σ₂) : Beside σ σ₂ := by
  obtain ⟨_, a, _, hl, rfl⟩ := h
  obtain ⟨k, b, log, hl', rfl⟩ := h'
  exact ⟨k, a ++ b, log, hl'.trans hl, by simp only [Array.append_assoc]⟩

theorem store (h : Beside σ σ₁) : σ₁.store = σ.store := by
  obtain ⟨_, _, _, _, rfl⟩ := h
  rfl

theorem calls (h : Beside σ σ₁) : σ₁.calls = σ.calls := by
  obtain ⟨_, _, _, _, rfl⟩ := h
  rfl

theorem iterations (h : Beside σ σ₁) : σ₁.iterations = σ.iterations := by
  obtain ⟨_, _, _, _, rfl⟩ := h
  rfl

theorem of_record {event : LogEvent} {subject : Datum} (h : σ.record event subject = .ok σ₁) :
    Beside σ σ₁ := by
  unfold record at h
  split at h
  · cases h
    exact .refl σ
  · cases hl : subject.label σ.appearance with
    | error e => rw [hl] at h; cases h
    | ok label =>
      rename_i hs
      rw [hl] at h
      cases h
      exact .of_log σ σ.stamps (by rw [hs]; rfl)

end Beside

/-- Being beside a session, and giving out no number again that was given out there. -/
structure Follows (σ σ' : Session) : Prop where
  beside : σ.Beside σ'
  stamps_le : σ.stamps ≤ σ'.stamps

namespace Follows

variable {σ σ₁ σ₂ : Session}

theorem refl (σ : Session) : Follows σ σ := ⟨.refl σ, Nat.le_refl _⟩

theorem trans (h : Follows σ σ₁) (h' : Follows σ₁ σ₂) : Follows σ σ₂ :=
  ⟨h.beside.trans h'.beside, Nat.le_trans h.stamps_le h'.stamps_le⟩

theorem of_record {event : LogEvent} {subject : Datum} (h : σ.record event subject = .ok σ₁) :
    Follows σ σ₁ := by
  refine ⟨.of_record h, ?_⟩
  unfold record at h
  split at h
  · cases h
    exact Nat.le_refl _
  · cases hl : subject.label σ.appearance with
    | error e => rw [hl] at h; cases h
    | ok label => rw [hl] at h; cases h; exact Nat.le_refl _

end Follows

/-- Leading to sessions beside the present one only, where no number is given out again and the log
is the same. -/
structure Eval.Keeps {α : Type} (c : Eval α) : Prop where
  beside {σ σ' : Session} {a : α} : c σ = .ok (a, σ') → σ.Beside σ'
  stamps_le {σ σ' : Session} {a : α} : c σ = .ok (a, σ') → σ.stamps ≤ σ'.stamps
  log {σ σ' : Session} {a : α} : c σ = .ok (a, σ') → σ'.log = σ.log

namespace Eval.Keeps

variable {α β γ : Type}

theorem follows {c : Eval α} (hc : c.Keeps) {σ σ' : Session} {a : α} (h : c σ = .ok (a, σ')) :
    σ.Follows σ' := ⟨hc.beside h, hc.stamps_le h⟩

/-- A computation that leaves every session as it is keeps sessions. -/
theorem of_same {c : Eval α} (h : ∀ {σ σ' : Session} {a : α}, c σ = .ok (a, σ') → σ' = σ) : Keeps c where
  beside hc := h hc ▸ .refl _
  stamps_le hc := h hc ▸ Nat.le_refl _
  log hc := h hc ▸ rfl

theorem pure (a : α) : Keeps (Pure.pure a : Eval α) := .of_same fun h => by cases h; rfl

theorem bind {c : Eval α} {f : α → Eval β} (hc : c.Keeps) (hf : ∀ a, (f a).Keeps) :
    Keeps (c >>= f) := by
  have key {σ σ' : Session} {b : β} (h : (c >>= f) σ = .ok (b, σ')) :
      ∃ a σ₁, c σ = .ok (a, σ₁) ∧ f a σ₁ = .ok (b, σ') := by
    change (c σ).bind (fun p => f p.1 p.2) = _ at h
    cases hcσ : c σ with
    | error e => rw [hcσ] at h; cases h
    | ok p =>
      rw [hcσ] at h
      exact ⟨p.1, p.2, rfl, h⟩
  constructor
  · intro σ σ' b h
    obtain ⟨a, σ₁, h₁, h₂⟩ := key h
    exact (hc.beside h₁).trans ((hf a).beside h₂)
  · intro σ σ' b h
    obtain ⟨a, σ₁, h₁, h₂⟩ := key h
    exact Nat.le_trans (hc.stamps_le h₁) ((hf a).stamps_le h₂)
  · intro σ σ' b h
    obtain ⟨a, σ₁, h₁, h₂⟩ := key h
    exact ((hf a).log h₂).trans (hc.log h₁)

theorem get : Keeps (MonadState.get : Eval Session) := .of_same fun h => by cases h; rfl

theorem throw (e : Error) : Keeps (throw e : Eval α) := .of_same nofun

theorem lift (r : Except Error α) : Keeps (liftM r : Eval α) := by
  refine .of_same fun h => ?_
  cases r with
  | error e => cases h
  | ok a => cases h; rfl

theorem newStamp : Keeps Session.newStamp where
  beside h := by
    cases h
    exact .of_log _ _ rfl
  stamps_le h := by
    cases h
    exact Nat.le_succ _
  log h := by
    cases h
    rfl

theorem newGenerator (body : List Stmt) : Keeps (Session.newGenerator body) where
  beside {σ σ' g} h := by
    cases h
    exact ⟨σ.stamps, #[body], σ.log, rfl, by rw [Array.append_singleton]⟩
  stamps_le h := by
    cases h
    exact Nat.le_refl _
  log h := by
    cases h
    rfl

theorem newKind (name : String) : Keeps (Session.newKind name) := by
  unfold Session.newKind
  split
  · exact .bind (.throw _) fun _ => .bind .newStamp fun _ => .pure _
  · exact .bind .newStamp fun _ => .pure _

theorem requireKey (d : Datum) : Keeps (Session.requireKey d) := by
  unfold Session.requireKey
  refine .bind .get fun σ => ?_
  split
  · exact .throw _
  · exact .pure _

/-! ### Several arguments -/

variable {f : α → Eval γ} (hf : ∀ a, (f a).Keeps)
include hf

theorem mapM (as : List α) : Keeps (as.mapM f) := by
  induction as with
  | nil => exact .pure []
  | cons a as ih =>
    rw [List.mapM_cons]
    exact .bind (hf a) fun _ => .bind ih fun _ => .pure _

theorem evaluateOption (a : Option α) : Keeps (Action.evaluateOption f a) := by
  cases a with
  | none => exact .pure _
  | some a => exact .bind (hf a) fun _ => .pure _

theorem evaluateNamed (named : List (String × α)) : Keeps (Action.evaluateNamed f named) := by
  unfold Action.evaluateNamed
  exact .mapM (fun e => .bind (hf e.2) fun _ => .pure _) named

theorem evaluateKind (kind : HostKind α) : Keeps (Action.evaluateKind f kind) := by
  cases kind with
  | equal key => exact .bind (hf key) fun _ => .pure _
  | plain | callable | empty | unhashable => exact .pure _

theorem evaluate (action : Action α β) : Keeps (action.evaluate f) := by
  cases action with
  | select t method argument generator =>
    exact .bind (.evaluateOption hf _) fun _ => .bind (.evaluateOption hf _) fun _ => .pure _
  | assign t properties keywords =>
    exact .bind (.evaluateOption hf _) fun _ => .bind (.evaluateNamed hf _) fun _ => .pure _
  | write | define | setScope | reset | setOption | lookup | release | contains =>
    exact .bind (hf _) fun _ => .pure _
  | build | construct =>
    exact .bind (hf _) fun _ => .bind (hf _) fun _ => .bind (.evaluateOption hf _) fun _ =>
      .bind (.evaluateNamed hf _) fun _ => .pure _
  | create arguments host options =>
    exact .bind (.mapM hf _) fun _ => .bind (.evaluateOption hf _) fun _ =>
      .bind (.evaluateNamed hf _) fun _ => .pure _
  | makeHost name kind => exact .bind (.evaluateKind hf _) fun _ => .pure _
  | obtain | render =>
    exact .bind (hf _) fun _ => .bind (hf _) fun _ => .bind (.evaluateNamed hf _) fun _ => .pure _
  | check | var | read | iterate | advance | same | drop | dropHost | makeRegistry | size
  | labelRegistry | clear | raise | attempt => exact .pure _

end Eval.Keeps

/-! ### Expressions -/

mutual

theorem keeps_eval : (e : Expr) → (eval e).Keeps
  | .null | .bool _ | .int _ | .text _ | .named _ => .pure _
  | .integer _ => .bind (.lift _) fun _ => .pure _
  | .decimal _ => .bind (.lift _) fun _ => .bind .newStamp fun _ => .pure _
  | .kind name => .newKind name
  | .naming _ => .bind .newStamp fun _ => .pure _
  | .list items => .bind (keeps_evalItems items) fun _ => .pure _
  | .dict entries => .bind (keeps_evalEntries entries) fun _ => .bind .get fun _ => .pure _
  | .concat parts => .bind (keeps_evalItems parts) fun _ => .bind (.lift _) fun _ => .pure _
  | .host _ | .saved _ => .bind .get fun _ => .pure _
  | .inline body => .bind (.newGenerator body) fun _ => .pure _

theorem keeps_evalItems : (es : List Expr) → (evalItems es).Keeps
  | [] => .pure _
  | e :: rest => .bind (keeps_eval e) fun _ => .bind (keeps_evalItems rest) fun _ => .pure _

theorem keeps_evalEntries : (es : List (Expr × Expr)) → (evalEntries es).Keeps
  | [] => .pure _
  | (k, v) :: rest =>
    .bind (keeps_eval k) fun _ => .bind (keeps_eval v) fun _ =>
      .bind (.requireKey _) fun _ => .bind (keeps_evalEntries rest) fun _ => .pure _

end

theorem keeps_className (rule : Naming) (name : Option String) : (className rule name).Keeps := by
  unfold className
  split
  · split
    · exact keeps_eval _
    · exact .throw _
  · exact .throw _
  · exact .pure _
  · exact .pure _
  · exact .pure _
  · exact .throw _

theorem keeps_evalAction (action : Action Expr (List Stmt)) : (evalAction action).Keeps :=
  .evaluate keeps_eval action

end Session

end RuleTree
