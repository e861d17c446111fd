import RuleTree.Session.Build
import RuleTree.Session.Read

/-!
# Errors that name no selector

Only writing fails for a selector that awaits a target. What is worked out or shown of values fails
for other reasons.

* `Error.Plain`, `Plain`: an error that names no such selector, and a computation that fails, if at
  all, with one of these;
* `Datum.label_plain`, `Datum.picture_plain`: values that are shown and told;
* `Method.fragmentOf_plain`, `declarationsOf_plain`: fragments and declarations;
* `Session.eval_plain`, `Session.evalAction_plain`: the arguments of statements.
-/

namespace RuleTree

/-- Naming no selector that awaits a target. -/
def Error.Plain (e : Error) : Prop := ∀ t, e ≠ .incompleteSelector t

/-- Failing, if at all, with an error that names no selector. -/
def Plain {α : Type} (x : Except Error α) : Prop := ∀ e, x = .error e → e.Plain

namespace Plain

variable {α β : Type}

theorem ok (a : α) : Plain (.ok a : Except Error α) := nofun

theorem error {e : Error} (h : e.Plain) : Plain (.error e : Except Error α) := by
  rintro _ ⟨⟩
  exact h

theorem map {x : Except Error α} (h : Plain x) (f : α → β) : Plain (x.map f) := by
  cases x with
  | error e => exact .error (h e rfl)
  | ok a => exact .ok _

theorem bind {x : Except Error α} {f : α → Except Error β} (h : Plain x) (hf : ∀ a, Plain (f a)) :
    Plain (x >>= f) := by
  cases x with
  | error e => exact error (h e rfl)
  | ok a => exact hf a

theorem mapM {f : β → Except Error α} {l : List β} (h : ∀ b ∈ l, Plain (f b)) :
    Plain (l.mapM f) := by
  induction l with
  | nil => exact .ok _
  | cons b rest ih =>
    rw [List.mapM_cons]
    exact (h b List.mem_cons_self).bind fun _ =>
      (ih fun c hc => h c (List.mem_cons_of_mem _ hc)).bind fun _ => .ok _

theorem ite {c : Prop} [Decidable c] {x y : Except Error α} (hx : Plain x) (hy : Plain y) :
    Plain (if c then x else y) := by
  split
  · exact hx
  · exact hy

end Plain

/-! ### Values -/

theorem writeInteger_plain (n : Int) : Plain (writeInteger n) := .ite (.ok _) (.error nofun)

namespace Datum

variable {look : Appearance} {views : Views}

mutual

theorem label_plain (hl : ∀ n, Plain (look.node n)) : (d : Datum) → Plain (label look d)
  | .list items => by
    rw [label]
    exact (labels_plain hl items).map _
  | .dict entries => by
    rw [label]
    exact (entryLabels_plain hl entries).map _
  | .int n => writeInteger_plain n
  | .node id => hl id
  | .nodes ids => by
    rw [label]
    exact (Plain.mapM fun n _ => hl n).map _
  | .null | .bool _ | .float _ _ | .text _ | .kind _ _ | .naming _ _ | .host _ => .ok _
  | .generator _ | .answer _ => .ok _

theorem labels_plain (hl : ∀ n, Plain (look.node n)) :
    (ds : List Datum) → Plain (labels look ds)
  | [] => .ok _
  | d :: rest => by
    rw [labels]
    exact (label_plain hl d).bind fun _ => (labels_plain hl rest).bind fun _ => .ok _

theorem entryLabels_plain (hl : ∀ n, Plain (look.node n)) :
    (es : List (Datum × Datum)) → Plain (entryLabels look es)
  | [] => .ok _
  | (k, v) :: rest => by
    rw [entryLabels]
    exact (label_plain hl k).bind fun _ => (label_plain hl v).bind fun _ =>
      (entryLabels_plain hl rest).bind fun _ => .ok _

end

mutual

theorem picture_plain (hv : ∀ n, Plain (views.node n)) : (d : Datum) → Plain (picture views d)
  | .list items => by
    rw [picture]
    exact (pictures_plain hv items).map _
  | .dict entries => by
    rw [picture]
    exact (entryPictures_plain hv entries).map _
  | .int n => by
    rw [picture]
    exact .ite (.ok _) ((writeInteger_plain n).map _)
  | .node id => hv id
  | .nodes ids => by
    rw [picture]
    exact (Plain.mapM fun n _ => hv n).map _
  | .null | .bool _ | .float _ _ | .text _ | .kind _ _ | .naming _ _ | .host _ => .ok _
  | .generator _ | .answer _ => .ok _

theorem pictures_plain (hv : ∀ n, Plain (views.node n)) :
    (ds : List Datum) → Plain (pictures views ds)
  | [] => .ok _
  | d :: rest => by
    rw [pictures]
    exact (picture_plain hv d).bind fun _ => (pictures_plain hv rest).bind fun _ => .ok _

theorem entryPictures_plain (hv : ∀ n, Plain (views.node n)) :
    (es : List (Datum × Datum)) → Plain (entryPictures views es)
  | [] => .ok _
  | (k, v) :: rest => by
    rw [entryPictures]
    exact (picture_plain hv k).bind fun _ => (picture_plain hv v).bind fun _ =>
      (entryPictures_plain hv rest).bind fun _ => .ok _

end

theorem told_plain (hv : ∀ n, Plain (views.node n)) (d : Datum) : Plain (d.told views) := by
  cases d with
  | answer fields => exact .ok _
  | _ => exact picture_plain hv _

theorem spelled_plain (d : Datum) : Plain (d.spelled .plain) := by
  cases d with
  | text s => exact .ok _
  | node id => exact .ok _
  | _ => exact @label_plain .plain (fun _ => .ok _) _

theorem toDouble_plain (d : Datum) : Plain d.toDouble := by
  unfold toDouble
  split
  · exact .ok _
  · split
    · exact .error nofun
    · split
      · exact .ok _
      · exact .error nofun

theorem plus_plain (stamp : Stamp) (a b : Datum) : Plain (plus stamp a b) := by
  unfold plus
  split
  · exact .ok _
  · exact .ok _
  · exact .ok _
  · split
    · exact .ok _
    · exact .ite (a.toDouble_plain.bind fun _ => b.toDouble_plain.bind fun _ => .ok _)
        (.error nofun)

theorem texts_plain (d : Datum) : Plain (d.texts .plain) := by
  unfold texts
  split
  · exact .ok _
  · split
    · exact .error nofun
    · refine .mapM fun x _ => ?_
      split
      · exact .ok _
      · exact .error nofun

end Datum

/-- A value that is shown in a session. -/
theorem Session.label_plain (σ : Session) (d : Datum) : Plain (d.label σ.appearance) := by
  refine Datum.label_plain (fun n => ?_) d
  show Plain (σ.store.label σ.hostName n)
  induction n using Nat.strongRecOn with
  | ind n ih =>
    have older (m : NodeId) :
        Plain (if _h : m < n then σ.store.label σ.hostName m else .ok "") := by
      by_cases hm : m < n
      · rw [dif_pos hm]
        exact ih m hm
      · rw [dif_neg hm]
        exact .ok _
    rw [Store.label]
    exact (Datum.label_plain older _).bind fun _ => (Datum.label_plain older _).bind fun _ => .ok _

/-- What is told of a result. -/
theorem Session.told_plain (σ : Session) (r : Result) : Plain (r.told σ.views) := by
  refine Datum.told_plain (fun n => ?_) _
  show Plain (σ.store.picture σ.hostName n)
  induction n using Nat.strongRecOn with
  | ind n ih =>
    rw [Store.picture]
    refine (Datum.picture_plain (fun m => ?_) _).map _
    show Plain (if m < n then _ else _)
    by_cases hm : m < n
    · simp only [hm, if_true]
      exact ih m hm
    · simp only [hm, if_false]
      exact .ok _

/-! ### Fragments and declarations -/

theorem fillTemplateChars_plain (arguments : List (Except Error String))
    (h : ∀ a ∈ arguments, Plain a) (cs : List Char) : Plain (fillTemplateChars arguments cs) := by
  fun_induction fillTemplateChars arguments cs with
  | case1 => exact .ok _
  | case2 _ _ ih => exact (ih h).map _
  | case3 _ _ ih => exact (ih h).map _
  | case4 => exact .error nofun
  | case5 rest argument others ih =>
    exact (h argument List.mem_cons_self).bind fun _ =>
      (ih fun a ha => h a (List.mem_cons_of_mem _ ha)).bind fun _ => .ok _
  | case6 => exact .error nofun
  | case7 => exact .error nofun
  | case8 =>
    rename_i ih
    exact (ih h).map _

theorem Shortcut.fragment_plain (s : Shortcut) (d : Datum) : Plain (s.fragment .plain d) := by
  have fill {argument : Except Error String} (h : Plain argument) :
      Plain (fillTemplate s.token argument) := by
    refine (fillTemplateChars_plain _ (fun a ha => ?_) _).map _
    rw [List.mem_singleton.1 ha]
    exact h
  have list : Plain (selectorList .plain d) := by
    unfold selectorList
    split
    · exact .ok _
    · exact .ite (d.texts_plain.map _) (.ok _)
  unfold fragment format
  refine Plain.map ?_ _
  split
  · exact .ok _
  · exact fill d.spelled_plain
  · exact list.bind fun _ => fill (.ok _)

theorem Method.fragmentOf_plain (m : Method) (d : Datum) : Plain (m.fragmentOf .plain d) := by
  cases m with
  | fragment => exact .ok _
  | joined c => exact d.spelled_plain.map _
  | kind => exact d.spelled_plain.map _
  | descendant => exact .ok _
  | shortcut s => exact (s.fragment_plain d).map _

theorem Method.bind_plain {α : Type} (m : Method) (first generator : Option α) :
    Plain (m.bind first generator) := by
  unfold Method.bind
  split
  · exact .ite (.ok _) (.error nofun)
  · split
    · exact .error nofun
    · exact .ok _
    · exact .ok _

theorem propertyValue_plain (d : Datum) : Plain (propertyValue .plain d) := by
  unfold propertyValue
  split
  · exact .ok _
  · exact Datum.spelled_plain _

theorem declarations_plain (properties : Datum) (keywords : Table Datum) :
    Plain (declarations .plain properties keywords) := by
  have items : Plain (declarationItems properties keywords) := by
    refine Plain.map ?_ _
    unfold propertyEntries
    split
    · split
      · exact .ok _
      · exact .error nofun
    · exact .ok _
  refine items.bind fun items => (Plain.mapM fun item _ => ?_).bind fun _ => .ok _
  have name : Plain (propertyName? item.1) := by
    cases item.1 with
    | text => exact .ok _
    | _ => exact .error nofun
  exact name.bind fun _ => (propertyValue_plain item.2).bind fun _ => .ok _

theorem declarationsOf_plain (properties : Option Datum) (keywords : Table Datum) :
    Plain (declarationsOf .plain properties keywords) := by
  unfold declarationsOf
  split
  · exact .error nofun
  · exact declarations_plain _ _
  · exact declarations_plain _ _
  · exact declarations_plain _ _

/-! ### Arguments -/

namespace Session

/-- A computation that, in any session, fails, if at all, with an error that names no selector. -/
def Eval.Plain {α : Type} (c : Eval α) : Prop := ∀ σ, RuleTree.Plain (c σ)

namespace Eval.Plain

variable {α β : Type}

theorem pure (a : α) : Plain (Pure.pure a : Eval α) := fun _ => .ok _

theorem bind {c : Eval α} {f : α → Eval β} (hc : c.Plain) (hf : ∀ a, (f a).Plain) :
    (c >>= f).Plain := fun σ => (hc σ).bind fun p => hf p.1 p.2

theorem lift {x : Except Error α} (h : RuleTree.Plain x) : Plain (liftM x : Eval α) := fun _ =>
  h.bind fun _ => .ok _

theorem mapM {f : β → Eval α} {l : List β} (h : ∀ b ∈ l, (f b).Plain) : Plain (l.mapM f) := by
  induction l with
  | nil => exact .pure _
  | cons b rest ih =>
    rw [List.mapM_cons]
    exact (h b List.mem_cons_self).bind fun _ =>
      (ih fun c hc => h c (List.mem_cons_of_mem _ hc)).bind fun _ => .pure _

section Arguments

variable {f : α → Eval β} (hf : ∀ a, (f a).Plain)
include hf

theorem evaluateOption (a : Option α) : Plain (Action.evaluateOption f a) := by
  cases a with
  | none => exact .pure _
  | some a => exact (hf a).bind fun _ => .pure _

theorem evaluateNamed (named : List (String × α)) : Plain (Action.evaluateNamed f named) := by
  unfold Action.evaluateNamed
  exact .mapM fun e _ => (hf e.2).bind fun _ => .pure _

theorem evaluateKind (kind : HostKind α) : Plain (Action.evaluateKind f kind) := by
  cases kind with
  | equal key => exact (hf key).bind fun _ => .pure _
  | plain | callable | empty | unhashable => exact .pure _

theorem evaluate {γ : Type} (action : Action α γ) : Plain (action.evaluate f) := by
  cases action with
  | select t method argument generator =>
    exact (evaluateOption hf _).bind fun _ => (evaluateOption hf _).bind fun _ => .pure _
  | assign t properties keywords =>
    exact (evaluateOption hf _).bind fun _ => (evaluateNamed hf _).bind fun _ => .pure _
  | write | define | setScope | reset | setOption | lookup | release | contains =>
    exact (hf _).bind fun _ => .pure _
  | build | construct =>
    exact (hf _).bind fun _ => (hf _).bind fun _ => (evaluateOption hf _).bind fun _ =>
      (evaluateNamed hf _).bind fun _ => .pure _
  | create arguments host options =>
    exact (Eval.Plain.mapM fun e _ => hf e).bind fun _ => (evaluateOption hf _).bind fun _ =>
      (evaluateNamed hf _).bind fun _ => .pure _
  | makeHost name kind => exact (evaluateKind hf kind).bind fun _ => .pure _
  | obtain | render =>
    exact (hf _).bind fun _ => (hf _).bind fun _ => (evaluateNamed hf _).bind fun _ => .pure _
  | check | var | read | iterate | advance | same | drop | dropHost | makeRegistry | size
  | labelRegistry | clear | raise | attempt => exact .pure _

end Arguments

end Eval.Plain

theorem newStamp_plain : Eval.Plain newStamp := fun _ => .ok _

theorem get_plain : Eval.Plain (MonadState.get : Eval Session) := fun _ => .ok _

theorem newKind_plain (name : String) : Eval.Plain (newKind name) := by
  unfold newKind
  split
  · exact fun _ => .error nofun
  · exact newStamp_plain.bind fun _ => .pure _

theorem requireKey_plain (d : Datum) : Eval.Plain (requireKey d) := by
  refine get_plain.bind fun σ => ?_
  split
  · exact fun _ => .error nofun
  · exact .pure _

theorem readInteger_plain (digits : String) : RuleTree.Plain (readInteger digits) := by
  unfold readInteger
  split
  · exact .error nofun
  · exact .ite (.error nofun) (.ite (.error nofun) (.ok _))

theorem readDouble_plain (digits : String) : RuleTree.Plain (Double.read digits) := by
  unfold Double.read
  split
  · exact .ok _
  · exact .error nofun

mutual

theorem eval_plain : (e : Expr) → Eval.Plain (eval e)
  | .null | .bool _ | .int _ | .text _ | .named _ => .pure _
  | .integer _ => .bind (.lift (readInteger_plain _)) fun _ => .pure _
  | .decimal _ => .bind (.lift (readDouble_plain _)) fun _ => newStamp_plain.bind fun _ => .pure _
  | .kind name => newKind_plain name
  | .naming _ => newStamp_plain.bind fun _ => .pure _
  | .list items => (evalItems_plain items).bind fun _ => .pure _
  | .dict entries => (evalEntries_plain entries).bind fun _ => get_plain.bind fun _ => .pure _
  | .concat parts => (evalItems_plain parts).bind fun _ =>
    .bind (.lift (.mapM fun d _ => by
      cases d with
      | text => exact .ok _
      | _ => exact .error nofun)) fun _ => .pure _
  | .host _ | .saved _ => get_plain.bind fun _ => .pure _
  | .inline _ => .bind (fun _ => .ok _) fun _ => .pure _

theorem evalItems_plain : (es : List Expr) → Eval.Plain (evalItems es)
  | [] => .pure _
  | e :: rest => (eval_plain e).bind fun _ => (evalItems_plain rest).bind fun _ => .pure _

theorem evalEntries_plain : (es : List (Expr × Expr)) → Eval.Plain (evalEntries es)
  | [] => .pure _
  | (k, v) :: rest => (eval_plain k).bind fun _ => (eval_plain v).bind fun _ =>
    (requireKey_plain _).bind fun _ => (evalEntries_plain rest).bind fun _ => .pure _

end

theorem evalAction_plain (action : Action Expr (List Stmt)) : Eval.Plain (evalAction action) :=
  .evaluate eval_plain action

end Session

end RuleTree
