import RuleTree.Proofs.Rebuilding.Roots
import RuleTree.Proofs.References.Runs

/-!
# Building under a longer selector

* `Machine.BuiltLed`: what two builds come to, one of which has a text before its selector;
* `Machine.PrefixesBuild`, `Machine.prefixesBuild`: a build for a text that does not end with a
  space comes to what a build for no text comes to, with the text before all selectors.
-/

namespace RuleTree

namespace Machine

/-- What two builds come to, one of which has a text before its selector. -/
inductive BuiltLed (lead : String) (m m' : Machine) (res res' : Except Error Result) : Prop
  | failed (e : Error) (left : res = .error (e.led lead)) (right : res' = .error e)
  | completed (n n' : NodeId) (left : res = .ok (.value (.node n)))
    (right : res' = .ok (.value (.node n')))
    (shape : m.session.store.shape n = (m'.session.store.shape n').led lead)
    (texts : ∀ x ∈ m'.session.store.forest.preorder n', ∃ t,
      (m'.session.store.get x).selector = .text t)
    (blocks : m.session.store.blocks m.session.hostName n =
      (m'.session.store.blocks m'.session.hostName n').map (List.map (lead ++ ·)))

/-- In a state, a build for a text comes to what a build for no text comes to. -/
structure PrefixesBuild (m : Machine) (lead : String) (g : Generator) (host : Option Datum)
    (options : List (String × Datum)) : Prop where
  /-- the one fails if the other does, with the same error but for the text before the selector that
  awaits a target -/
  fails : ∀ tag tag' e,
    (∃ m₁, m.Performs tag (.build (.text lead) (.generator g) host options) (.error e) m₁) ↔
      ∃ e' m₁', m.Performs tag' (.build (.text "") (.generator g) host options) (.error e') m₁' ∧
        e = e'.led lead
  /-- the one succeeds if the other does -/
  succeeds : ∀ tag tag',
    (∃ a m₁, m.Performs tag (.build (.text lead) (.generator g) host options) (.ok a) m₁) ↔
      ∃ a' m₁', m.Performs tag' (.build (.text "") (.generator g) host options) (.ok a') m₁'
  /-- then the trees are the same, and so are the blocks, but for the text before all selectors -/
  same : ∀ tag tag' a a' m₁ m₁',
    m.Performs tag (.build (.text lead) (.generator g) host options) (.ok a) m₁ →
      m.Performs tag' (.build (.text "") (.generator g) host options) (.ok a') m₁' →
        BuiltLed lead m₁ m₁' (.ok a) (.ok a')

section Builds

variable {m : Machine} {lead : String} {g : Generator} {host : Option Datum}
  {options : List (String × Datum)} (settled : m.settled = none) (leading : Leading lead)
  (contained : ∀ o, OptionSet.merge (Session.optionsDatum
    ((Table.ofList options).erase Session.hostOption)) = .ok o →
      m.session.SelfContained o.className (m.session.bodyOf g))
include settled leading contained

/-- Either both builds are refused at once, or the same body is run, and so each one is completed if
the other one is. -/
theorem builds_correspond (tag tag' : Tag) :
    m.Corresponds m tag tag' (.build (.text lead) (.generator g) host options)
      (.build (.text "") (.generator g) host options) (BuiltLed lead) := by
  rcases Session.build_text host (.ofList options) with ⟨e, he, hb⟩ | ⟨o, hm, hb⟩
  · exact corresponds_of_done (hb m.session lead g .node) (hb m.session "" g .node)
      (.failed e (congrArg Except.error (Error.led_of_plain he lead).symm) rfl)
  · obtain ⟨L, hl, hL, hparent⟩ := hb m.session lead g .node
    obtain ⟨R, hr, hR, hparent'⟩ := hb m.session "" g .node
    obtain ⟨bodies, closes, body⟩ := contained o hm
    have hd : (Datum.text lead).bare = ((Datum.text "").led lead).bare :=
      congrArg Datum.text String.append_empty.symm
    let γ : Ground := .ofNew L R hL.lt hR.lt leading (.build .node) (.build .node) tag tag'
      m.session.calls m.session.calls bodies
    have hf : γ.Fit True :=
      hL.fit hR (.refl closes) hd (fun m hm => nomatch hm) leading (.build .node) (.build .node)
    have habreast : γ.Abreast (m.perform tag (.build (.text lead) (.generator g) host options))
        (m.perform tag' (.build (.text "") (.generator g) host options)) :=
      hf.abreast rfl rfl hl hr body settled settled
    refine Ground.corresponds hf habreast
      (fun i hi => hi.shut (fun _ => hparent) hparent') rfl rfl fun P P' res res' ho hset hset' => ?_
    cases ho with
    | raised e settled settled' =>
      cases hset.symm.trans settled
      cases hset'.symm.trans settled'
      exact .failed e rfl rfl
    | given twins left right =>
      cases hset.symm.trans left.settled
      cases hset'.symm.trans right.settled
      cases left.finish
      cases right.finish
      refine .completed m.session.store.next m.session.store.next rfl rfl ?_ ?_ ?_
      · rw [left.session, right.session]
        exact twins.shape hf hL.blank
      · rw [right.session]
        refine fun x hx => Datum.exists_of_isText (twins.isText hL.blank ?_ hx)
        show (R.store.get m.session.store.next).selector.isText = true
        rw [hR.selector_eq]
        rfl
      · rw [left.session, right.session]
        exact twins.blocks hf hL.blank

/-- The build for no text is completed if the build for the text is. -/
theorem builds_of_builds (tag' : Tag) {tag : Tag} {res : Except Error Result} {m₁ : Machine}
    (hp : m.Performs tag (.build (.text lead) (.generator g) host options) res m₁) :
    ∃ res' m₁', m.Performs tag' (.build (.text "") (.generator g) host options) res' m₁' ∧
      BuiltLed lead m₁ m₁' res res' :=
  (builds_correspond settled leading contained tag tag').forth hp

/-- A build that is completed without the text before its selector is completed with it, and the
trees are the same but for this text. -/
theorem builds_of_builds' (tag : Tag) {tag' : Tag} {res' : Except Error Result} {m₁' : Machine}
    (hp : m.Performs tag' (.build (.text "") (.generator g) host options) res' m₁') :
    ∃ res m₁, m.Performs tag (.build (.text lead) (.generator g) host options) res m₁ ∧
      BuiltLed lead m₁ m₁' res res' :=
  (builds_correspond settled leading contained tag tag').back hp

end Builds

/-- A self-contained generator builds the same for a text that does not end with a space as for no
text, with the text before all selectors. -/
theorem prefixesBuild {m : Machine} {lead : String} {g : Generator} {host : Option Datum}
    {options : List (String × Datum)} (settled : m.settled = none)
    (ends : lead.toList.getLast? ≠ some ' ')
    (contained : ∀ o, OptionSet.merge (Session.optionsDatum
      ((Table.ofList options).erase Session.hostOption)) = .ok o →
        m.session.SelfContained o.className (m.session.bodyOf g)) :
    m.PrefixesBuild lead g host options := by
  have leading : Leading lead := leading_iff.2 ends
  exact {
    fails := fun tag tag' e => by
      constructor
      · rintro ⟨m₁, hp⟩
        obtain ⟨res', m₁', hp', hm⟩ := builds_of_builds settled leading contained tag' hp
        cases hm with
        | failed e' left right =>
          cases left
          exact ⟨e', m₁', right ▸ hp', rfl⟩
        | completed n n' left => cases left
      · rintro ⟨e', m₁', hp', rfl⟩
        obtain ⟨res, m₁, hp, hm⟩ := builds_of_builds' settled leading contained tag hp'
        cases hm with
        | failed e left right =>
          cases right
          exact ⟨m₁, left ▸ hp⟩
        | completed n n' left right => cases right
    succeeds := fun tag tag' => by
      constructor
      · rintro ⟨a, m₁, hp⟩
        obtain ⟨res', m₁', hp', hm⟩ := builds_of_builds settled leading contained tag' hp
        cases hm with
        | failed e' left right => cases left
        | completed n n' left right => exact ⟨_, m₁', right ▸ hp'⟩
      · rintro ⟨a', m₁', hp'⟩
        obtain ⟨res, m₁, hp, hm⟩ := builds_of_builds' settled leading contained tag hp'
        cases hm with
        | failed e left right => cases right
        | completed n n' left => exact ⟨_, m₁, left ▸ hp⟩
    same := fun tag tag' a a' m₁ m₁' hp hp' => by
      obtain ⟨res', m₂', hp₂', hm⟩ := builds_of_builds settled leading contained tag' hp
      obtain ⟨rfl, rfl⟩ := hp₂'.unique hp'
      exact hm }

end Machine

/-- A script with a generator that is not run yet. -/
def Script.waiting : Script where
  steps := []
  generators := .ofList [("fill", Body.filling)]
  logs := true

theorem Machine.prefixesBuild_waiting : "article".toList.getLast? ≠ some ' ' ∧
    (load .waiting).PrefixesBuild "article" (.named "fill") none [("clear_on_reset", .bool true)] :=
  have ends : "article".toList.getLast? ≠ some ' ' := by decide
  ⟨ends, prefixesBuild rfl ends fun _ _ => Session.selfContained_filling _ _⟩

end RuleTree
