import RuleTree.Proofs.Blocks.Decoding
import RuleTree.Proofs.Selecting.Methods
import Mathlib.Data.List.Nodup

/-!
# Fragments of the catalog

A fragment of the catalog tells which shortcut it was made by, and of what text.

* `fillSlot`: a template with a text in the place of its slot;
* `Shortcut.argumentText`, `Shortcut.filled`: the text that an argument stands for, and the token
  that is filled with it;
* `Shortcut.Shaped`, `Shortcut.fragment_eq`: the shape of the tokens, which have at most one slot,
  between parentheses at the end, and the fragments of shortcuts of that shape;
* `Shortcut.toList_fragment`: such a fragment is a head without parentheses, and the text behind it
  between parentheses;
* `nodup_heads`: no two shortcuts of the catalog that both take an argument, or both take none, have
  the same head;
* `selectorList_append`: lists of selectors one behind the other;
* `catalog_unambiguous`: fragments of the catalog are the same only if shortcuts and texts are.

Nothing is known of the texts. They may hold parentheses and braces, or be made of other fragments.
-/

namespace RuleTree

/-- A template with a text in the place of its slot, which is the first empty pair of braces. -/
def fillSlot (text : List Char) : List Char → List Char
  | '\x7b' :: '\x7d' :: rest => text ++ rest
  | c :: rest => c :: fillSlot text rest
  | [] => []

theorem fillSlot_append (text : List Char) {cs : List Char} (h : '\x7b' ∉ cs) (rest : List Char) :
    fillSlot text (cs ++ '\x7b' :: '\x7d' :: rest) = cs ++ (text ++ rest) := by
  induction cs with
  | nil => rfl
  | cons c cs ih =>
    rw [List.mem_cons, not_or] at h
    rw [List.cons_append, fillSlot, ih h.2, List.cons_append]
    intro _ hc _
    exact h.1 hc.symm

namespace Shortcut

/-- What the method of a shortcut is passed for an argument. -/
def passed (s : Shortcut) (argument : Datum) : Option Datum :=
  if s.argument = .none then none else some argument

/-- The text that an argument stands for: none if the shortcut takes no argument, else the value as
it is spelled, or the list of selectors. -/
def argumentText (look : Appearance) (s : Shortcut) (argument : Datum) :
    Except Error (Option String) :=
  match s.argument with
  | .none => .ok none
  | .value => (argument.spelled look).map some
  | .selectors => (selectorList look argument).map some

/-- The token of a shortcut with a text in the place of its slot. -/
def filled (s : Shortcut) : Option String → String
  | none => s.token
  | some text => String.ofList (fillSlot text.toList s.token.toList)

/-- What a token begins with, up to its first parenthesis. -/
def stem (s : Shortcut) : List Char := s.token.toList.takeWhile fun c => c != '('

/-- Having a token that is all stem if there is no argument, and else a stem with a slot between
parentheses behind it. -/
structure Shaped (s : Shortcut) : Prop where
  token : s.token.toList = s.stem ++ if s.argument = .none then [] else ['(', '\x7b', '\x7d', ')']
  stem : ∀ c ∈ s.stem, c ≠ '\x7b' ∧ c ≠ '\x7d'

instance (s : Shortcut) : Decidable s.Shaped :=
  have : Decidable (∀ c ∈ s.stem, c ≠ '\x7b' ∧ c ≠ '\x7d') := List.decidableBAll _ _
  decidable_of_iff (_ ∧ _) ⟨fun h => ⟨h.1, h.2⟩, fun h => ⟨h.token, h.stem⟩⟩

variable {s : Shortcut} {look : Appearance} {argument : Datum}

theorem takes_passed (s : Shortcut) (argument : Datum) :
    (Method.shortcut s).Takes (s.passed argument) := by
  unfold Method.Takes Method.takesArgument passed
  by_cases h : s.argument = .none <;> simp [h]

/-- What is passed instead of an argument that is not taken makes no difference. -/
theorem fragment_passed (s : Shortcut) (look : Appearance) (argument : Datum) :
    s.fragment look ((s.passed argument).getD .null) = s.fragment look argument := by
  unfold passed
  split
  · rename_i h
    unfold fragment format
    rw [h]
  · rfl

/-! ### Filling the slot -/

namespace Shaped

theorem opening (hs : s.Shaped) : ∀ c ∈ s.stem ++ ['('], c ≠ '\x7b' ∧ c ≠ '\x7d' := by
  intro c hc
  rcases List.mem_append.1 hc with hc | hc
  · exact hs.stem c hc
  · rw [List.mem_singleton.1 hc]
    decide

theorem token_eq (hs : s.Shaped) (hn : s.argument ≠ .none) :
    s.token.toList = (s.stem ++ ['(']) ++ '\x7b' :: '\x7d' :: [')'] := by
  rw [hs.token, if_neg hn, List.append_assoc]
  rfl

/-- Nothing but the slot is replaced. -/
theorem toList_filled (hs : s.Shaped) (hn : s.argument ≠ .none) (text : String) :
    (s.filled (some text)).toList = (s.stem ++ ['(']) ++ (text.toList ++ [')']) := by
  have hbrace : '\x7b' ∉ s.stem ++ ['('] := fun h => (hs.opening _ h).1 rfl
  rw [filled, String.toList_ofList, hs.token_eq hn, fillSlot_append _ hbrace]

/-- A template is filled by putting the text in the place of the slot. -/
theorem fillTemplate_eq (hs : s.Shaped) (hn : s.argument ≠ .none) (r : Except Error String) :
    fillTemplate s.token r = r.map fun text => s.filled (some text) := by
  unfold fillTemplate
  rw [hs.token_eq hn]
  cases r with
  | error e =>
    rw [fillTemplateChars_append _ hs.opening]
    rfl
  | ok text =>
    have closing : ∀ c ∈ [')'], c ≠ '\x7b' ∧ c ≠ '\x7d' := by simp
    rw [fillTemplateChars_slot text hs.opening closing, ← hs.toList_filled hn]
    exact congrArg Except.ok String.ofList_toList

end Shaped

/-- A fragment is the token of the combinator and the template with the text of the argument in the
place of its slot. -/
theorem fragment_eq (hs : s.Shaped) (look : Appearance) (argument : Datum) :
    s.fragment look argument =
      (s.argumentText look argument).map fun text => s.combinator.token ++ s.filled text := by
  unfold fragment format argumentText
  cases hk : s.argument with
  | none => rfl
  | value =>
    simp only [hs.fillTemplate_eq (hk ▸ nofun)]
    cases argument.spelled look <;> rfl
  | selectors =>
    simp only [hs.fillTemplate_eq (hk ▸ nofun)]
    cases selectorList look argument <;> rfl

/-! ### Reading a fragment -/

/-- What a fragment begins with, up to its first parenthesis. -/
def head (s : Shortcut) : List Char := s.combinator.token.toList ++ s.stem

/-- What stands behind the head of a fragment: nothing, or a text between parentheses. -/
def enclosed : Option String → List Char
  | none => []
  | some text => '(' :: (text.toList ++ [')'])

theorem parenthesis_not_mem_head (s : Shortcut) : '(' ∉ s.head := by
  unfold head stem
  rw [List.mem_append, not_or]
  refine ⟨by cases s.combinator <;> decide, fun h => ?_⟩
  have hall : (s.token.toList.takeWhile (· != '(')).all (· != '(') = true := List.all_takeWhile
  exact absurd (List.all_eq_true.1 hall _ h) (by decide)

/-- A shortcut has an argument text if it takes an argument. -/
theorem argumentText_isSome {text : Option String} (h : s.argumentText look argument = .ok text) :
    text.isSome = (s.argument != .none) := by
  have key {r : Except Error String} (hr : r.map some = .ok text) : text.isSome = true := by
    cases r with
    | error e => cases hr
    | ok u => cases hr; rfl
  unfold argumentText at h
  cases hk : s.argument with
  | none =>
    rw [hk] at h
    cases h
    rfl
  | value | selectors =>
    rw [hk] at h
    exact key h

/-- A fragment is made of its head and what it encloses. -/
theorem toList_fragment (hs : s.Shaped) {f : String} (h : s.fragment look argument = .ok f) :
    ∃ text, s.argumentText look argument = .ok text ∧ f.toList = s.head ++ enclosed text := by
  rw [fragment_eq hs] at h
  cases ht : s.argumentText look argument with
  | error e => rw [ht] at h; cases h
  | ok text =>
    have hsome := argumentText_isSome ht
    rw [ht] at h
    cases h
    refine ⟨text, rfl, ?_⟩
    rw [String.toList_append]
    cases text with
    | none =>
      have hn : s.argument = .none := by simpa using hsome
      rw [filled, hs.token, if_pos hn]
      simp only [head, enclosed, List.append_nil]
    | some u =>
      have hn : s.argument ≠ .none := by simpa using hsome
      rw [hs.toList_filled hn]
      simp only [head, enclosed, List.append_assoc, List.cons_append, List.nil_append]

/-- What is enclosed is found behind the first parenthesis. -/
theorem before?_head (s : Shortcut) (text : Option String) :
    Chars.before? '(' (s.head ++ enclosed text) = text.map fun u => (s.head, u.toList ++ [')']) := by
  cases text with
  | none =>
    rw [enclosed, List.append_nil]
    exact Chars.before?_eq_none s.parenthesis_not_mem_head
  | some u => exact Chars.before?_append s.parenthesis_not_mem_head

/-- Head and text can be told from the fragment. -/
theorem head_enclosed_inj {t : Shortcut} {x y : Option String}
    (h : s.head ++ enclosed x = t.head ++ enclosed y) : s.head = t.head ∧ x = y := by
  have hr := congrArg (Chars.before? '(') h
  rw [before?_head, before?_head] at hr
  cases x with
  | none =>
    cases y with
    | none => exact ⟨by simpa [enclosed] using h, rfl⟩
    | some v => cases hr
  | some u =>
    cases y with
    | none => cases hr
    | some v =>
      obtain ⟨hhead, htext⟩ := Prod.mk.inj (Option.some.inj hr)
      exact ⟨hhead, congrArg some (String.toList_inj.1 (List.append_cancel_right htext))⟩

end Shortcut

/-! ### Lists of selectors -/

/-- Texts one behind the other are joined like the lists that they come from. -/
theorem intercalate_append (separator : String) {xs ys : List String} (hx : xs ≠ [])
    (hy : ys ≠ []) : separator.intercalate (xs ++ ys) =
      separator.intercalate xs ++ separator ++ separator.intercalate ys := by
  induction xs with
  | nil => exact absurd rfl hx
  | cons x xs ih =>
    cases xs with
    | nil => exact String.intercalate_cons_of_ne_nil hy
    | cons x' xs =>
      rw [List.cons_append, String.intercalate_cons_of_ne_nil (by simp), ih (by simp),
        String.intercalate_cons_of_ne_nil (l := x' :: xs) (by simp)]
      simp only [String.append_assoc]

/-- Walking over a list of texts yields the texts. -/
theorem texts_list (look : Appearance) (texts : List String) :
    Datum.texts look (.list (texts.map .text)) = .ok texts := by
  show List.mapM _ _ = _
  induction texts with
  | nil => rfl
  | cons text texts ih =>
    rw [List.map_cons, List.mapM_cons, ih]
    rfl

/-- A list of texts stands for the texts with a comma between them. -/
theorem selectorList_texts (look : Appearance) (texts : List String) :
    selectorList look (.list (texts.map .text)) = .ok (", ".intercalate texts) := by
  cases texts with
  | nil => rfl
  | cons text texts =>
    show (Datum.texts look (.list ((text :: texts).map .text))).map _ = _
    rw [texts_list]
    rfl

/-! ### The catalog -/

theorem shaped_of_mem_catalog : ∀ s ∈ catalog, s.Shaped := by decide +kernel

/-- The head of a fragment, and whether something is enclosed, tell the shortcut. -/
theorem nodup_heads : (catalog.map fun s => (s.head, s.argument == .none)).Nodup := by
  decide +kernel

/-- A shortcut of the catalog and the text of its argument can be told from the fragment. -/
theorem eq_of_fragment {s t : Shortcut} (hs : s ∈ catalog) (ht : t ∈ catalog)
    {look look' : Appearance} {a b : Datum} {f : String} (ha : s.fragment look a = .ok f)
    (hb : t.fragment look' b = .ok f) : s = t ∧ s.argumentText look a = t.argumentText look' b := by
  obtain ⟨x, hx, hfx⟩ := Shortcut.toList_fragment (shaped_of_mem_catalog s hs) ha
  obtain ⟨y, hy, hfy⟩ := Shortcut.toList_fragment (shaped_of_mem_catalog t ht) hb
  obtain ⟨hhead, rfl⟩ := Shortcut.head_enclosed_inj (hfx.symm.trans hfy)
  refine ⟨?_, hx.trans hy.symm⟩
  refine List.inj_on_of_nodup_map nodup_heads hs ht (Prod.ext hhead ?_)
  have hkind := (Shortcut.argumentText_isSome hx).symm.trans (Shortcut.argumentText_isSome hy)
  simpa [bne] using hkind

/-- What holds of the fragments of the catalog, whatever the arguments refer to and however that
looks at the time. -/
structure CatalogUnambiguous : Prop where
  /-- without a generator, the method of a shortcut answers with its fragment -/
  answers : ∀ s ∈ catalog, ∀ (σ : Session) (n : NodeId) (a : Datum),
    σ.callMethod n s.methodName (s.passed a) none =
      .answer σ ((s.fragment σ.appearance a).map fun f => .value (.text f))
  /-- a fragment is made of the token of the combinator and the template with its slot filled -/
  fragment : ∀ s ∈ catalog, ∀ look a, s.fragment look a =
    (s.argumentText look a).map fun text => s.combinator.token ++ s.filled text
  /-- an argument that is not taken is not looked at -/
  plain : ∀ s ∈ catalog, s.argument = .none → ∀ look a, s.argumentText look a = .ok none
  /-- a value stands for its text -/
  value : ∀ s ∈ catalog, s.argument = .value → ∀ look a,
    s.argumentText look a = (a.spelled look).map some
  /-- a text stands for itself in the place of a list of selectors -/
  selector : ∀ s ∈ catalog, s.argument = .selectors → ∀ look text,
    s.argumentText look (.text text) = .ok (some text)
  /-- and a list of texts for the texts with a comma between them -/
  selectors : ∀ s ∈ catalog, s.argument = .selectors → ∀ look texts,
    s.argumentText look (.list (texts.map .text)) = .ok (some (", ".intercalate texts))
  /-- the same fragment comes from the same shortcut and the same text only -/
  inj : ∀ s ∈ catalog, ∀ t ∈ catalog, ∀ look look' a b f, s.fragment look a = .ok f →
    t.fragment look' b = .ok f → s = t ∧ s.argumentText look a = t.argumentText look' b
  /-- a list of texts has the fragment of the text that it stands for -/
  list : ∀ s ∈ catalog, s.argument = .selectors → ∀ look texts,
    s.fragment look (.list (texts.map .text)) = s.fragment look (.text (", ".intercalate texts))
  /-- two lists one behind the other stand for their texts with a comma between them -/
  append : ∀ s ∈ catalog, s.argument = .selectors → ∀ look xs ys, xs ≠ [] → ys ≠ [] →
    ∃ x y, s.argumentText look (.list (xs.map .text)) = .ok (some x) ∧
      s.argumentText look (.list (ys.map .text)) = .ok (some y) ∧
      s.argumentText look (.list ((xs ++ ys).map .text)) = .ok (some (x ++ ", " ++ y))

/-- The fragments of the catalog are unambiguous. -/
theorem catalog_unambiguous : CatalogUnambiguous := by
  have hlist {s : Shortcut} (hk : s.argument = .selectors) (look : Appearance)
      (texts : List String) : s.argumentText look (.list (texts.map .text)) =
        .ok (some (", ".intercalate texts)) := by
    unfold Shortcut.argumentText
    rw [hk]
    simp only [selectorList_texts]
    rfl
  have htext {s : Shortcut} (hk : s.argument = .selectors) (look : Appearance) (text : String) :
      s.argumentText look (.text text) = .ok (some text) := by
    unfold Shortcut.argumentText
    rw [hk]
    rfl
  exact
    { answers := fun s hs σ n a => by
        have hm := Method.named_of_ofName? (named_of_mem_catalog s hs)
        rw [Session.callMethod_none hm (s.takes_passed a) nofun, Method.fragmentOf,
          Shortcut.fragment_passed]
        cases s.fragment σ.appearance a <;> rfl
      fragment := fun s hs => Shortcut.fragment_eq (shaped_of_mem_catalog s hs)
      plain := fun s _ hk look a => by
        unfold Shortcut.argumentText
        rw [hk]
      value := fun s _ hk look a => by
        unfold Shortcut.argumentText
        rw [hk]
      selector := fun s _ hk => htext hk
      selectors := fun s _ hk => hlist hk
      inj := fun s hs t ht look look' a b f => eq_of_fragment hs ht
      list := fun s hs hk look texts => by
        have hshaped := shaped_of_mem_catalog s hs
        rw [Shortcut.fragment_eq hshaped, Shortcut.fragment_eq hshaped, hlist hk, htext hk]
      append := fun s _ hk look xs ys hx hy =>
        ⟨_, _, hlist hk look xs, hlist hk look ys, by
          rw [hlist hk look (xs ++ ys), intercalate_append ", " hx hy]⟩ }

end RuleTree
