import RuleTree.Proofs.Scopes.Reached

/-!
# Arguments of two runs

* `Session.Eval.Tallies`: computations that fail with the same error in two sessions, or have
  related values there, by numbers that are given out in both;
* `Session.tallies_eval`: what varies only in the values that are passed to definitions has values
  that are the same but for numbers;
* `Session.tallies_className`, `Session.tallies_evalAction`: so class names are the same, and so are
  the arguments of all statements but definitions;
* `Session.Tallies.heldBy`: and what statements keep alive stands for each other.
-/

namespace RuleTree

theorem Datum.Tallies.textOf {μ : Matching} {d d' : Datum} (h : d.Tallies μ d') :
    Session.textOf d = Session.textOf d' := by
  cases h <;> rfl

namespace Session

variable {μ ν : Matching} {σ σ' : Session} {α β γ δ : Type}

/-- Failing with the same error, or having related values in sessions that hold the same but for
numbers. -/
structure Eval.Tallies (μ : Matching) (σ σ' : Session) (r : Matching → α → β → Prop) (c : Eval α)
    (c' : Eval β) : Prop where
  both : Both (fun p p' => ∃ ν, μ.Le ν ∧ p.2.Tallies ν p'.2 ∧ r ν p.1 p'.1) (c σ) (c' σ')

namespace Eval.Tallies

variable {r : Matching → α → β → Prop} {q : Matching → γ → δ → Prop}

theorem pure (h : σ.Tallies μ σ') {a : α} {b : β} (hr : r μ a b) :
    Tallies μ σ σ' r (Pure.pure a : Eval α) (Pure.pure b : Eval β) :=
  ⟨.ok ⟨μ, .refl μ, h, hr⟩⟩

theorem throw (e : Error) : Tallies μ σ σ' r (throw e : Eval α) (throw e : Eval β) := ⟨.error e⟩

theorem bind {c : Eval α} {c' : Eval β} {f : α → Eval γ} {f' : β → Eval δ}
    (hc : Tallies μ σ σ' r c c')
    (hf : ∀ ν σ₁ σ₁' a b, μ.Le ν → σ₁.Tallies ν σ₁' → r ν a b → Tallies ν σ₁ σ₁' q (f a) (f' b)) :
    Tallies μ σ σ' q (c >>= f) (c' >>= f') := by
  refine ⟨?_⟩
  show Both _ ((c σ).bind fun p => f p.1 p.2) ((c' σ').bind fun p => f' p.1 p.2)
  refine hc.both.bind ?_
  rintro ⟨a, σ₁⟩ ⟨b, σ₁'⟩ ⟨ν, hle, h, hr⟩
  have hfab := (hf ν σ₁ σ₁' a b hle h hr).both
  revert hfab
  show Both _ (f a σ₁) (f' b σ₁') → Both _ (f a σ₁) (f' b σ₁')
  generalize f a σ₁ = x, f' b σ₁' = y
  rintro (e | ⟨ρ, hle', h', hq⟩)
  · exact .error e
  · exact .ok ⟨ρ, hle.trans hle', h', hq⟩

/-- The rest of a computation, once the first value is worked out. -/
theorem map {c : Eval α} {c' : Eval β} {f : α → γ} {f' : β → δ} (hc : Tallies μ σ σ' r c c')
    (hf : ∀ ν a b, μ.Le ν → r ν a b → q ν (f a) (f' b)) :
    Tallies μ σ σ' q (c >>= fun a => Pure.pure (f a)) (c' >>= fun b => Pure.pure (f' b)) :=
  hc.bind fun ν _ _ a b hle h hr => .pure h (hf ν a b hle hr)

theorem get (h : σ.Tallies μ σ') :
    Tallies μ σ σ' (fun ν a b => a.Tallies ν b) (MonadState.get : Eval Session)
      (MonadState.get : Eval Session) :=
  ⟨.ok ⟨μ, .refl μ, h, h⟩⟩

theorem lift (h : σ.Tallies μ σ') {x : Except Error α} {y : Except Error β} {r : α → β → Prop}
    (hxy : Both r x y) : Tallies μ σ σ' (fun _ => r) (liftM x : Eval α) (liftM y : Eval β) := by
  cases hxy with
  | error e => exact ⟨.error e⟩
  | ok hr => exact ⟨.ok ⟨μ, .refl μ, h, hr⟩⟩

theorem newStamp (h : σ.Tallies μ σ') :
    Tallies μ σ σ' Matching.stamp Session.newStamp Session.newStamp := by
  obtain ⟨ν, hle, hs, h'⟩ := h.newStamp
  exact ⟨.ok ⟨ν, hle, h', hs⟩⟩

theorem newGenerator (h : σ.Tallies μ σ') {body body' : List Stmt} (hb : Body.Varies body body') :
    Tallies μ σ σ' Generator.Tallies (Session.newGenerator body) (Session.newGenerator body') := by
  obtain ⟨ν, hle, hi, h'⟩ := h.newGenerator hb
  exact ⟨.ok ⟨ν, hle, h', .inline hi⟩⟩

theorem newKind (h : σ.Tallies μ σ') (name : String) :
    Tallies μ σ σ' Datum.Tallies (Session.newKind name) (Session.newKind name) := by
  unfold Session.newKind
  split
  · exact (throw .badName : Tallies μ σ σ' (fun _ _ _ => True) _ _).bind
      fun ν _ _ _ _ _ h _ => (newStamp h).map fun _ _ _ _ hs => .kind name hs
  · exact (newStamp h).map fun _ _ _ _ hs => .kind name hs

theorem requireKey (h : σ.Tallies μ σ') {d d' : Datum} (hd : d.Tallies μ d') :
    Tallies μ σ σ' (fun _ _ _ => True) (Session.requireKey d) (Session.requireKey d') := by
  unfold Session.requireKey
  refine ⟨?_⟩
  show Both _
    ((if !d.isKey σ.hasHash then MonadExcept.throw .notHashable else Pure.pure () : Eval Unit)
      σ)
    ((if !d'.isKey σ'.hasHash then MonadExcept.throw .notHashable else Pure.pure () : Eval Unit)
      σ')
  rw [hd.isKey fun hi => h.hasHash hi]
  split
  · exact .error _
  · exact .ok ⟨μ, .refl μ, h, trivial⟩

end Eval.Tallies

/-! ### Expressions -/

mutual

/-- What varies only in the values that are passed to definitions has values that are the same but for
numbers. -/
theorem tallies_eval : (e e' : Expr) → e.Varies e' → ∀ {μ : Matching} {σ σ' : Session},
    σ.Tallies μ σ' → Eval.Tallies μ σ σ' Datum.Tallies (eval e) (eval e')
  | .null, _, hv, _, _, _, h => by
    cases hv
    exact .pure h .null
  | .bool b, _, hv, _, _, _, h => by
    cases hv
    exact .pure h (.bool b)
  | .int n, _, hv, _, _, _, h => by
    cases hv
    exact .pure h (.int n)
  | .text s, _, hv, _, _, _, h => by
    cases hv
    exact .pure h (.text s)
  | .integer digits, _, hv, _, _, _, h => by
    cases hv
    exact (Eval.Tallies.lift h (.of_eq rfl)).map
      fun _ _ _ _ he => he ▸ .int _
  | .decimal digits, _, hv, _, _, _, h => by
    cases hv
    refine (Eval.Tallies.lift h (.of_eq rfl)).bind ?_
    rintro ν σ₁ σ₁' x _ _ h rfl
    exact (Eval.Tallies.newStamp h).map fun _ _ _ _ hs => .float x hs
  | .kind name, _, hv, _, _, _, h => by
    cases hv
    exact .newKind h name
  | .naming rule, _, hv, _, _, _, h => by
    cases hv
    exact (Eval.Tallies.newStamp h).map fun _ _ _ _ hs => .naming rule hs
  | .list xs, _, hv, _, _, _, h => by
    obtain ⟨ys, rfl, hys⟩ := hv.of_list
    exact (tallies_evalItems xs ys hys h).map fun _ _ _ _ hd => .list hd
  | .dict xs, _, hv, _, _, _, h => by
    obtain ⟨ys, rfl, hys⟩ := hv.of_dict
    refine (tallies_evalEntries xs ys hys h).bind fun ν σ₁ σ₁' ps ps' _ h hp => ?_
    refine (Eval.Tallies.get h).bind fun ρ σ₂ σ₂' a b hle h hab => .pure h ?_
    exact .ofPairs hab.counts.oneToOne (fun hi hj => hab.equal hi hj)
      (hp.imp fun _ _ hp => hp.imp (fun _ _ => .mono hle) fun _ _ => .mono hle)
  | .concat xs, _, hv, _, _, _, h => by
    obtain ⟨ys, rfl, hys⟩ := hv.of_concat
    refine (tallies_evalItems xs ys hys h).bind fun ν σ₁ σ₁' ds ds' _ h hd => ?_
    have texts : Both Eq (ds.mapM textOf) (ds'.mapM textOf) :=
      (Both.mapM (q := Eq) hd fun _ _ hd => .of_eq hd.textOf).imp
        fun _ _ => eq_of_forall₂
    exact (Eval.Tallies.lift h texts).map fun _ _ _ _ he => he ▸ .text _
  | .host name, _, hv, _, _, _, h => by
    cases hv
    refine (Eval.Tallies.get h).map fun ν a b _ hab => ?_
    rw [hab.hostNames]
    cases b.hostNames.find? name with
    | none => exact .null
    | some id => exact .host id
  | .saved name, _, hv, _, _, _, h => by
    cases hv
    exact (Eval.Tallies.get h).map fun ν a b _ hab => (hab.saved.find? name).getD .null
  | .named generator, _, hv, _, _, _, h => by
    cases hv
    exact .pure h (.generator (.named generator))
  | .inline body, _, hv, _, _, _, h => by
    -- the one place where definitions of other values get into a session
    obtain ⟨body', rfl, hb⟩ := hv.of_inline
    exact (Eval.Tallies.newGenerator h hb).map fun _ _ _ _ hg => .generator hg

theorem tallies_evalItems : (xs ys : List Expr) → List.Forall₂ Expr.Varies xs ys →
    ∀ {μ : Matching} {σ σ' : Session}, σ.Tallies μ σ' →
      Eval.Tallies μ σ σ' (fun ν => List.Forall₂ (Datum.Tallies ν)) (evalItems xs) (evalItems ys)
  | [], [], _, _, _, _, h => .pure h .nil
  | x :: xs, y :: ys, .cons hx hxs, _, _, _, h =>
    (tallies_eval x y hx h).bind fun _ _ _ _ _ _ h hd =>
      (tallies_evalItems xs ys hxs h).map fun _ _ _ hle hds => .cons (hd.mono hle) hds

theorem tallies_evalEntries : (xs ys : List (Expr × Expr)) →
    List.Forall₂ (PairRel Expr.Varies Expr.Varies) xs ys →
    ∀ {μ : Matching} {σ σ' : Session}, σ.Tallies μ σ' →
      Eval.Tallies μ σ σ' Datum.Tallies.Entries (evalEntries xs) (evalEntries ys)
  | [], [], _, _, _, _, h => .pure h .nil
  | (k, v) :: xs, (k', v') :: ys, .cons (.mk hk hv) hxs, _, _, _, h =>
    (tallies_eval k k' hk h).bind fun _ _ _ _ _ _ h hkey =>
      (tallies_eval v v' hv h).bind fun _ _ _ _ _ hle₁ h hvalue =>
        (Eval.Tallies.requireKey h (hkey.mono hle₁)).bind fun _ _ _ _ _ hle₂ h _ =>
          (tallies_evalEntries xs ys hxs h).map fun _ _ _ hle₃ hes =>
            .cons (.mk (hkey.mono (hle₁.trans (hle₂.trans hle₃)))
              (hvalue.mono (hle₂.trans hle₃))) hes

end

/-- A naming rule gives the same class names. -/
theorem tallies_className (h : σ.Tallies μ σ') (rule : Naming) (name : Option String) :
    Eval.Tallies μ σ σ' Datum.Tallies (className rule name) (className rule name) := by
  unfold className
  split
  · split
    · exact tallies_eval _ _ (.same _) h
    · exact .throw _
  · exact .throw _
  · exact .pure h (.text _)
  · exact .pure h (.text _)
  · exact .pure h (.text _)
  · exact .throw _

/-! ### Actions -/

theorem tallies_evalOption (h : σ.Tallies μ σ') {a a' : Option Expr}
    (ha : Option.Rel Expr.Varies a a') :
    Eval.Tallies μ σ σ' (fun ν => Option.Rel (Datum.Tallies ν)) (Action.evaluateOption eval a)
      (Action.evaluateOption eval a') := by
  cases ha with
  | none => exact .pure h .none
  | some ha => exact (tallies_eval _ _ ha h).map fun _ _ _ _ hd => .some hd

theorem tallies_evalNamed (h : σ.Tallies μ σ') {n n' : List (String × Expr)}
    (hn : NamedRel Expr.Varies n n') :
    Eval.Tallies μ σ σ' (fun ν => NamedRel (Datum.Tallies ν)) (Action.evaluateNamed eval n)
      (Action.evaluateNamed eval n') := by
  unfold Action.evaluateNamed
  induction hn generalizing μ σ σ' with
  | nil => exact .pure h .nil
  | @cons p p' _ _ hp _ ih =>
    rw [List.mapM_cons, List.mapM_cons]
    have first : Eval.Tallies μ σ σ' (fun ν => PairRel Eq (Datum.Tallies ν))
        (do return (p.1, ← eval p.2)) (do return (p'.1, ← eval p'.2)) :=
      (tallies_eval _ _ hp.right h).map fun _ _ _ _ hd => .mk hp.left hd
    exact first.bind fun _ _ _ _ _ _ h hd => (ih h).map fun _ _ _ hle hds =>
      .cons (hd.imp (fun _ _ => id) fun _ _ => .mono hle) hds

theorem tallies_evalList (h : σ.Tallies μ σ') {l l' : List Expr}
    (hl : List.Forall₂ Expr.Varies l l') :
    Eval.Tallies μ σ σ' (fun ν => List.Forall₂ (Datum.Tallies ν)) (l.mapM eval) (l'.mapM eval) := by
  induction hl generalizing μ σ σ' with
  | nil => exact .pure h .nil
  | cons he _ ih =>
    rw [List.mapM_cons, List.mapM_cons]
    exact (tallies_eval _ _ he h).bind fun _ _ _ _ _ _ h hd => (ih h).map fun _ _ _ hle hds =>
      .cons (hd.mono hle) hds

theorem tallies_evalKind (h : σ.Tallies μ σ') {k k' : HostKind Expr}
    (hk : HostKind.Rel Expr.Varies k k') :
    Eval.Tallies μ σ σ' (fun ν => HostKind.Rel (Datum.Tallies ν)) (Action.evaluateKind eval k)
      (Action.evaluateKind eval k') := by
  cases hk with
  | equal hk => exact (tallies_eval _ _ hk h).map fun _ _ _ _ hd => .equal hd
  | plain => exact .pure h .plain
  | callable => exact .pure h .callable
  | empty => exact .pure h .empty
  | unhashable => exact .pure h .unhashable

/-- The arguments of statements that vary in the values that are passed to definitions only. -/
theorem tallies_evalAction (h : σ.Tallies μ σ') {a a' : Action Expr (List Stmt)}
    (ha : Action.Rel Expr.Varies Body.Varies a a') :
    Eval.Tallies μ σ σ' (fun ν => Action.Rel (Datum.Tallies ν) Body.Varies) (evalAction a)
      (evalAction a') := by
  unfold evalAction
  cases ha with
  | select t m ha hg =>
    exact (tallies_evalOption h ha).bind fun _ _ _ _ _ _ h hd =>
      (tallies_evalOption h hg).map fun _ _ _ hle hg =>
        .select t m (hd.mono fun _ _ => .mono hle) hg
  | write t ha => exact (tallies_eval _ _ ha h).map fun _ _ _ _ hd => .write t hd
  | assign t ha hk =>
    exact (tallies_evalOption h ha).bind fun _ _ _ _ _ _ h hd =>
      (tallies_evalNamed h hk).map fun _ _ _ hle hk =>
        .assign t (hd.mono fun _ _ => .mono hle) hk
  | define t name ha => exact (tallies_eval _ _ ha h).map fun _ _ _ _ hd => .define t name hd
  | setScope t name ha => exact (tallies_eval _ _ ha h).map fun _ _ _ _ hd => .setScope t name hd
  | reset t ha => exact (tallies_eval _ _ ha h).map fun _ _ _ _ hd => .reset t hd
  | setOption t name ha => exact (tallies_eval _ _ ha h).map fun _ _ _ _ hd => .setOption t name hd
  | build hs hg hh ho =>
    exact (tallies_eval _ _ hs h).bind fun _ _ _ _ _ _ h hs =>
      (tallies_eval _ _ hg h).bind fun _ _ _ _ _ hle₁ h hg =>
        (tallies_evalOption h hh).bind fun _ _ _ _ _ hle₂ h hh =>
          (tallies_evalNamed h ho).map fun _ _ _ hle₃ ho =>
            .build (hs.mono (hle₁.trans (hle₂.trans hle₃))) (hg.mono (hle₂.trans hle₃))
              (hh.mono fun _ _ => .mono hle₃) ho
  | construct parent hs hg hh ho =>
    exact (tallies_eval _ _ hs h).bind fun _ _ _ _ _ _ h hs =>
      (tallies_eval _ _ hg h).bind fun _ _ _ _ _ hle₁ h hg =>
        (tallies_evalOption h hh).bind fun _ _ _ _ _ hle₂ h hh =>
          (tallies_evalNamed h ho).map fun _ _ _ hle₃ ho =>
            .construct parent (hs.mono (hle₁.trans (hle₂.trans hle₃))) (hg.mono (hle₂.trans hle₃))
              (hh.mono fun _ _ => .mono hle₃) ho
  | create ha hh ho =>
    exact (tallies_evalList h ha).bind fun _ _ _ _ _ _ h ha =>
      (tallies_evalOption h hh).bind fun _ _ _ _ _ hle₁ h hh =>
        (tallies_evalNamed h ho).map fun _ _ _ hle₂ ho =>
          .create (ha.imp fun _ _ => .mono (hle₁.trans hle₂)) (hh.mono fun _ _ => .mono hle₂) ho
  | makeHost name hk => exact (tallies_evalKind h hk).map fun _ _ _ _ hk => .makeHost name hk
  | lookup registry hh => exact (tallies_eval _ _ hh h).map fun _ _ _ _ hd => .lookup registry hd
  | release registry hh => exact (tallies_eval _ _ hh h).map fun _ _ _ _ hd => .release registry hd
  | contains registry hh =>
    exact (tallies_eval _ _ hh h).map fun _ _ _ _ hd => .contains registry hd
  | obtain registry hh hg ho =>
    exact (tallies_eval _ _ hh h).bind fun _ _ _ _ _ _ h hh =>
      (tallies_eval _ _ hg h).bind fun _ _ _ _ _ hle₁ h hg =>
        (tallies_evalNamed h ho).map fun _ _ _ hle₂ ho =>
          .obtain registry (hh.mono (hle₁.trans hle₂)) (hg.mono hle₂) ho
  | render registry hh hg ho =>
    exact (tallies_eval _ _ hh h).bind fun _ _ _ _ _ _ h hh =>
      (tallies_eval _ _ hg h).bind fun _ _ _ _ _ hle₁ h hg =>
        (tallies_evalNamed h ho).map fun _ _ _ hle₂ ho =>
          .render registry (hh.mono (hle₁.trans hle₂)) (hg.mono hle₂) ho
  | check t name => exact .pure h (.check t name)
  | var t name => exact .pure h (.var t name)
  | read t facet => exact .pure h (.read t facet)
  | iterate t walk iteration => exact .pure h (.iterate t walk iteration)
  | advance iteration count => exact .pure h (.advance iteration count)
  | same first second => exact .pure h (.same first second)
  | drop handle => exact .pure h (.drop handle)
  | dropHost name => exact .pure h (.dropHost name)
  | makeRegistry registry => exact .pure h (.makeRegistry registry)
  | size registry => exact .pure h (.size registry)
  | labelRegistry registry => exact .pure h (.labelRegistry registry)
  | clear registry => exact .pure h (.clear registry)
  | raise message => exact .pure h (.raise message)
  | attempt hb => exact .pure h (.attempt hb)

end Session

namespace Action.Rel

variable {α α' β β' : Type} {r : α → α' → Prop} {q : β → β' → Prop} {a : Action α β}
  {a' : Action α' β'}

theorem target? (h : Action.Rel r q a a') : a.target? = a'.target? := by cases h <;> rfl

theorem arguments (h : Action.Rel r q a a') : List.Forall₂ r a.arguments a'.arguments := by
  have named {n : List (String × α)} {n' : List (String × α')} (h : NamedRel r n n') :
      List.Forall₂ r (n.map Prod.snd) (n'.map Prod.snd) :=
    List.rel_map (fun _ _ hp => hp.right) h
  cases h with
  | select _ _ ha hg => exact List.rel_append ha.toList hg.toList
  | assign _ ha hk => exact List.rel_append ha.toList (named hk)
  | write _ ha | define _ _ ha | setScope _ _ ha | reset _ ha | setOption _ _ ha | lookup _ ha
  | release _ ha | contains _ ha => exact .cons ha .nil
  | build hs hg hh ho => exact .cons hs (.cons hg (List.rel_append hh.toList (named ho)))
  | construct _ hs hg hh ho => exact .cons hs (.cons hg (List.rel_append hh.toList (named ho)))
  | create ha hh ho => exact List.rel_append (List.rel_append ha hh.toList) (named ho)
  | makeHost _ hk =>
    cases hk with
    | equal hk => exact .cons hk .nil
    | _ => exact .nil
  | obtain _ hh hg ho | render _ hh hg ho => exact .cons hh (.cons hg (named ho))
  | _ => exact .nil

end Action.Rel

/-- What a statement keeps alive while it waits stands for each other. -/
theorem Session.Tallies.heldBy {μ : Matching} {σ σ' : Session} (h : σ.Tallies μ σ')
    {a a' : Action Datum (List Stmt)} (ha : Action.Rel (Datum.Tallies μ) Body.Varies a a') :
    List.Forall₂ (Identity.Tallies μ) (σ.heldBy a) (σ'.heldBy a') := by
  have target (t : Option Target) :
      Option.Rel (Datum.Tallies μ) (t.map σ.target) (t.map σ'.target) := by
    cases t with
    | none => exact .none
    | some t => exact .some (h.target t)
  unfold Session.heldBy
  rw [ha.target?]
  exact List.rel_append (List.rel_flatMap (target _).toList fun _ _ hd => hd.identities)
    (List.rel_flatMap ha.arguments fun _ _ hd => hd.identities)

end RuleTree
