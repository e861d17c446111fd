import RuleTree.Proofs.Blocks.Awaiting
import RuleTree.Proofs.Blocks.Decoding
import RuleTree.Proofs.Rebuilding.Tables

/-!
# Reading declarations back

Names and values stand in declarations as they are, with nothing to tell them from what is around
them. They can be told apart all the same as long as names hold no colons and nothing is broken over
lines.

* `Chars.cut?`, `Chars.declaration?`, `Chars.declarations?`: what stands before and behind the first
  colon that a space follows, one declaration, and all declarations of a text;
* `declarationLines`, `Chars.declarations?_encode`: the text of declarations, and that it is read
  back;
* `Declared`: what may be passed to be declared, and the items that it stands for;
* `Declared.ShownAs`: the names and values that these are shown with;
* `Declared.render_eq`: what is rendered are the lines of the items;
* `Store.append_append`: texts appended one after the other are appended as one;
* `declarations_decode`: declarations are read back as their items;
* `render_single_wide`: but a value may be too long to be written out.
-/

namespace RuleTree

namespace Chars

/-- What stands before the first colon that a space follows, and what stands behind the space. -/
def cut? : List Char → Option (List Char × List Char)
  | ':' :: ' ' :: rest => some ([], rest)
  | c :: rest => (cut? rest).map fun p => (c :: p.1, p.2)
  | [] => none

/-- The name and the value of a line that ends with a semicolon. -/
def declaration? (line : List Char) : Option (String × String) := do
  let line ← ahead? ';' line
  let (name, value) ← cut? line
  return (.ofList name, .ofList value)

/-- The names and values of a text of which every line is ended. -/
def declarations? (text : List Char) : Option (List (String × String)) :=
  (text.splitOn '\n').dropLast.mapM declaration?

variable {front back : List Char}

theorem cut?_append (h : ':' ∉ front) : cut? (front ++ ':' :: ' ' :: back) = some (front, back) := by
  induction front with
  | nil => rfl
  | cons c front ih =>
    rw [List.mem_cons, not_or] at h
    rw [List.cons_append, cut?, ih h.2]
    · rfl
    · exact fun _ hc => absurd hc.symm h.1

theorem declaration?_append {name value : String} (h : ':' ∉ name.toList) :
    declaration? (name.toList ++ ':' :: ' ' :: (value.toList ++ [';'])) = some (name, value) := by
  have hl : name.toList ++ ':' :: ' ' :: (value.toList ++ [';']) =
      (name.toList ++ ':' :: ' ' :: value.toList) ++ [';'] := by simp
  rw [hl, declaration?, ahead?_concat, Option.bind_eq_bind, Option.bind_some, cut?_append h]
  simp

/-- The first line of a text. -/
theorem splitOn_line (h : '\n' ∉ front) :
    (front ++ '\n' :: back).splitOn '\n' = front :: back.splitOn '\n' := by
  rw [List.splitOn_eq_splitOnP, List.splitOn_eq_splitOnP]
  refine List.splitOnP_append_cons_of_forall_mem (fun c hc => ?_) _ (by simp) _
  rw [beq_eq_false_iff_ne]
  rintro rfl
  exact h hc

end Chars

/-- The text of declarations, a line for each name and value. -/
def declarationLines (pairs : List (String × String)) : String :=
  String.join (pairs.map fun p => declarationLine p.1 p.2)

theorem declarationLines_append (ps qs : List (String × String)) :
    declarationLines (ps ++ qs) = declarationLines ps ++ declarationLines qs := by
  induction ps with
  | nil => simp [declarationLines]
  | cons p ps ih =>
    unfold declarationLines at ih ⊢
    rw [List.cons_append, List.map_cons, String.join_cons, ih, List.map_cons, String.join_cons,
      String.append_assoc]

/-- Declarations are read back if no name holds a colon, and neither a name nor a value a line
break. -/
theorem Chars.declarations?_encode {pairs : List (String × String)}
    (names : ∀ p ∈ pairs, ':' ∉ p.1.toList ∧ '\n' ∉ p.1.toList)
    (values : ∀ p ∈ pairs, '\n' ∉ p.2.toList) :
    declarations? (declarationLines pairs).toList = some pairs := by
  induction pairs with
  | nil => rfl
  | cons p pairs ih =>
    obtain ⟨hc, hn⟩ := names p List.mem_cons_self
    have hv := values p List.mem_cons_self
    have hl : (declarationLines (p :: pairs)).toList =
        (p.1.toList ++ ':' :: ' ' :: (p.2.toList ++ [';'])) ++
          '\n' :: (declarationLines pairs).toList := by
      simp [declarationLines, declarationLine, String.toList_append]
    have hbreak : '\n' ∉ p.1.toList ++ ':' :: ' ' :: (p.2.toList ++ [';']) := by simp [hn, hv]
    specialize ih (fun q hq => names q (List.mem_cons_of_mem _ hq))
      (fun q hq => values q (List.mem_cons_of_mem _ hq))
    unfold declarations? at ih ⊢
    rw [hl, splitOn_line hbreak, List.dropLast_cons_of_ne_nil (List.splitOn_ne_nil '\n' _),
      List.mapM_cons, declaration?_append hc, ih]
    rfl

/-! ### Names -/

/-- Text that a name may have to be read back: without colons and line breaks. -/
def Nameable (text : String) : Prop := ':' ∉ text.toList ∧ '\n' ∉ text.toList

instance (text : String) : Decidable (Nameable text) := inferInstanceAs (Decidable (_ ∧ _))

/-- The small letter of a capital is a small letter. -/
theorem isLower_toLower {c : Char} (h : c.isUpper = true) : c.toLower.isLower = true := by
  have hc : 'A'.val ≤ c.val ∧ c.val ≤ 'Z'.val := of_decide_eq_true h
  have he : c.toLower.val = c.val + ('a'.val - 'A'.val) := congrArg Char.val (dif_pos hc)
  obtain ⟨hl, hu⟩ : 65 ≤ c.val.toNat ∧ c.val.toNat ≤ 90 := hc
  have hn : c.toLower.val.toNat = (c.val.toNat + 32) % 2 ^ 32 := congrArg UInt32.toNat he
  have hl' : 'a'.val ≤ c.toLower.val := show 97 ≤ c.toLower.val.toNat by omega
  have hu' : c.toLower.val ≤ 'z'.val := show c.toLower.val.toNat ≤ 122 by omega
  exact Bool.and_eq_true_iff.2 ⟨decide_eq_true hl', decide_eq_true hu'⟩

/-- A character of a hyphenated name is a hyphen or a small letter, or stands in the name itself. -/
theorem mem_propertyName {key : String} {c : Char} (h : c ∈ (propertyName key).toList) :
    c = '-' ∨ c.isLower = true ∨ c ∈ key.toList := by
  rw [propertyName, String.toList_ofList] at h
  obtain ⟨d, hd, hc⟩ := List.mem_flatMap.1 h
  unfold hyphenate at hc
  split at hc
  · rename_i hu
    rcases List.mem_cons.1 hc with rfl | hc
    · exact .inl rfl
    · exact .inr (.inl (List.mem_singleton.1 hc ▸ isLower_toLower hu))
  · exact .inr (.inr (List.mem_singleton.1 hc ▸ hd))

theorem Nameable.propertyName {key : String} (h : Nameable key) : Nameable (propertyName key) := by
  have stays {c : Char} (hc : c ∉ key.toList) (hh : c ≠ '-') (hl : c.isLower = false) :
      c ∉ (RuleTree.propertyName key).toList := by
    intro hm
    rcases mem_propertyName hm with he | hs | hk
    · exact hh he
    · exact Bool.noConfusion (hl.symm.trans hs)
    · exact hc hk
  exact ⟨stays h.1 (by decide) (by decide), stays h.2 (by decide) (by decide)⟩

theorem Nameable.keywordKey {key : String} (h : Nameable key) : Nameable (keywordKey key) := by
  have stays {c : Char} (hc : c ∉ key.toList) (hh : c ≠ '-') :
      c ∉ (RuleTree.keywordKey key).toList := by
    rw [RuleTree.keywordKey, String.toList_ofList]
    intro hm
    obtain ⟨d, hd, he⟩ := List.mem_map.1 hm
    split at he
    · exact hh he.symm
    · exact hc (he ▸ hd)
  exact ⟨stays h.1 (by decide), stays h.2 (by decide)⟩

/-! ### Items -/

/-- An entry with a text for a key. -/
def Datum.keyed? : Datum × Datum → Option (String × Datum)
  | (.text key, value) => some (key, value)
  | _ => none

/-- The entries of a mapping with texts for keys. A value that is not set has none. -/
def Datum.mapping? (d : Datum) : Option (List (String × Datum)) :=
  if d.isNull then some [] else d.entries?.bind fun entries => entries.mapM keyed?

/-- What is passed to be declared: a mapping with texts for keys, which may be left out, and
keywords, none of which has the name of the mapping's parameter. -/
structure Declared where
  properties : Option Datum
  entries : List (String × Datum)
  keywords : Table Datum
  mapping : (properties.getD .null).mapping? = some entries
  unshadowed : keywords.find? propertiesParameter = none

namespace Declared

variable (d : Declared) (look : Appearance)

/-- The names that are passed. -/
def keys : List String := d.entries.map Prod.fst ++ d.keywords.keys

/-- The items that are passed: the entries of the mapping, and then the keywords with hyphens. -/
def items : List (String × Datum) :=
  d.entries ++ d.keywords.entries.map fun e => (keywordKey e.1, e.2)

/-- The text of what is passed. -/
def render : Except Error String := declarationsOf look d.properties d.keywords

/-- The statement that declares it on a rule set. -/
def assignTo (t : Target) : Action Datum (List Stmt) := .assign t d.properties d.keywords.entries

/-- The name and the value that each item is shown with. -/
def ShownAs (pairs : List (String × String)) : Prop :=
  List.Forall₂ (fun item pair => pair.1 = propertyName item.1 ∧
    propertyValue look item.2 = .ok pair.2) d.items pairs

end Declared

/-- The name and the value that an item is shown with, if its value can be shown. -/
def shownItem (look : Appearance) (item : String × Datum) : Except Error (String × String) :=
  (propertyValue look item.2).map (propertyName item.1, ·)

theorem itemLine_eq (look : Appearance) (item : String × Datum) :
    itemLine look (.text item.1, item.2) =
      (shownItem look item).map fun p => declarationLine p.1 p.2 := by
  unfold itemLine shownItem propertyName?
  cases propertyValue look item.2 <;> rfl

theorem mapM_itemLine (look : Appearance) (items : List (String × Datum)) :
    (items.map fun e => (Datum.text e.1, e.2)).mapM (itemLine look) =
      (items.mapM (shownItem look)).map (·.map fun p => declarationLine p.1 p.2) := by
  induction items with
  | nil => rfl
  | cons e items ih =>
    rw [List.map_cons, List.mapM_cons, ih, List.mapM_cons, itemLine_eq]
    cases shownItem look e with
    | error => rfl
    | ok p => cases items.mapM (shownItem look) <;> rfl

theorem mapM_shownItem_eq_ok {look : Appearance} {items : List (String × Datum)}
    {pairs : List (String × String)} (h : List.Forall₂ (fun item pair =>
      pair.1 = propertyName item.1 ∧ propertyValue look item.2 = .ok pair.2) items pairs) :
    items.mapM (shownItem look) = .ok pairs := by
  induction h with
  | nil => rfl
  | @cons item pair items pairs h _ ih =>
    obtain ⟨name, value⟩ := pair
    obtain ⟨rfl, hv⟩ := h
    rw [List.mapM_cons, shownItem, hv, ih]
    rfl

theorem forall₂_of_shown {look : Appearance} {items : List (String × Datum)}
    (h : ∀ item ∈ items, ∃ text, propertyValue look item.2 = .ok text) :
    ∃ pairs : List (String × String), List.Forall₂ (fun item pair =>
      pair.1 = propertyName item.1 ∧ propertyValue look item.2 = .ok pair.2) items pairs := by
  induction items with
  | nil => exact ⟨[], .nil⟩
  | cons item items ih =>
    obtain ⟨text, ht⟩ := h item List.mem_cons_self
    obtain ⟨pairs, hp⟩ := ih fun i hi => h i (List.mem_cons_of_mem _ hi)
    exact ⟨(propertyName item.1, text) :: pairs, .cons ⟨rfl, ht⟩ hp⟩

theorem mapM_shownItem_eq_error {look : Appearance} {front back : List (String × Datum)}
    {item : String × Datum} {e : Error}
    (h : ∀ item ∈ front, ∃ text, propertyValue look item.2 = .ok text)
    (he : propertyValue look item.2 = .error e) :
    (front ++ item :: back).mapM (shownItem look) = .error e := by
  obtain ⟨pairs, hp⟩ := forall₂_of_shown h
  rw [List.mapM_append, mapM_shownItem_eq_ok hp, List.mapM_cons, shownItem, he]
  rfl

theorem Datum.eq_of_keyed? {e : Datum × Datum} {entry : String × Datum}
    (h : keyed? e = some entry) : e = (.text entry.1, entry.2) := by
  obtain ⟨key, value⟩ := e
  cases key with
  | text key => cases h; rfl
  | _ => cases h

theorem Datum.eq_of_mapM_keyed? {es : List (Datum × Datum)} {entries : List (String × Datum)}
    (h : es.mapM keyed? = some entries) : es = entries.map fun e => (.text e.1, e.2) := by
  induction es generalizing entries with
  | nil => cases h; rfl
  | cons e es ih =>
    rw [List.mapM_cons] at h
    obtain ⟨entry, he, h⟩ := Option.bind_eq_some_iff.1 h
    obtain ⟨rest, hr, h⟩ := Option.bind_eq_some_iff.1 h
    cases h
    rw [eq_of_keyed? he, ih hr, List.map_cons]

/-- The entries that a mapping is declared with. -/
theorem propertyEntries_of_mapping {d : Datum} {entries : List (String × Datum)}
    (h : d.mapping? = some entries) :
    propertyEntries d = .ok (entries.map fun e => (.text e.1, e.2)) := by
  unfold Datum.mapping? at h
  unfold propertyEntries
  split at h
  · rename_i hn
    cases h
    cases d with
    | null => rfl
    | _ => cases hn
  · obtain ⟨es, he, hm⟩ := Option.bind_eq_some_iff.1 h
    have hes := Datum.eq_of_mapM_keyed? hm
    split
    · rw [he, hes]
    · -- a mapping that counts as not set is empty
      rename_i ht
      have hz : es = [] := by
        cases d with
        | dict entries => cases he; simpa [Datum.truthy] using ht
        | answer fields => cases he; simpa [Datum.truthy] using ht
        | _ => cases he
      rw [← hes, hz]

namespace Declared

variable {d : Declared} {look : Appearance}

theorem render_eq_declarations :
    d.render look = declarations look (d.properties.getD .null) d.keywords := by
  unfold render declarationsOf
  rw [d.unshadowed]
  cases d.properties <;> rfl

/-- What is rendered are the lines of the items, in order, or the error of the first that cannot be
shown. -/
theorem render_eq : d.render look = (d.items.mapM (shownItem look)).map declarationLines := by
  have hitems : declarationItems (d.properties.getD .null) d.keywords =
      .ok (d.items.map fun e => (.text e.1, e.2)) := by
    rw [declarationItems, propertyEntries_of_mapping d.mapping, items, List.map_append, List.map_map]
    rfl
  rw [render_eq_declarations, declarations, hitems]
  simp only [bind, Except.bind]
  rw [mapM_itemLine]
  cases d.items.mapM (shownItem look) <;> rfl

/-- The names of the items are made of those that are passed. -/
theorem nameable_items (h : ∀ key ∈ d.keys, Nameable key) : ∀ item ∈ d.items, Nameable item.1 := by
  intro item hi
  rcases List.mem_append.1 hi with he | hk
  · exact h item.1 (List.mem_append_left _ (List.mem_map_of_mem he))
  · obtain ⟨e, he, rfl⟩ := List.mem_map.1 hk
    exact (h e.1 (List.mem_append_right _ (List.mem_map_of_mem he))).keywordKey

theorem ShownAs.names {pairs : List (String × String)} (hp : d.ShownAs look pairs) :
    d.items.map (fun item => propertyName item.1) = pairs.map Prod.fst := by
  have h := List.forall₂_map_left_iff.2 (List.forall₂_map_right_iff.2
    (hp.imp fun _ _ h => h.1.symm : List.Forall₂ (fun item pair =>
      propertyName item.1 = pair.1) d.items pairs))
  rwa [List.forall₂_eq_eq_eq] at h

/-- The names that the items are shown with are as good as those that are passed. -/
theorem ShownAs.nameable {pairs : List (String × String)} (hp : d.ShownAs look pairs)
    (h : ∀ key ∈ d.keys, Nameable key) : ∀ pair ∈ pairs, Nameable pair.1 := by
  intro pair hm
  have hn : pair.1 ∈ d.items.map fun item => propertyName item.1 :=
    hp.names ▸ List.mem_map_of_mem hm
  obtain ⟨item, hi, he⟩ := List.mem_map.1 hn
  exact he ▸ (nameable_items h item hi).propertyName

end Declared

/-! ### Declarations on a rule set -/

theorem Forest.eq_of_nodes {f g : Forest} (h : f.nodes = g.nodes) : f = g := by
  cases f; cases g; cases h; rfl

/-- Texts appended one after the other are appended as one. -/
theorem Forest.append_append (f : Forest) (n : NodeId) (s t : String) :
    (f.append n s).append n t = f.append n (s ++ t) := by
  refine eq_of_nodes (Array.ext_getElem? fun m => ?_)
  simp only [append, edit, Array.getElem?_modify]
  split
  · rw [Option.map_map]
    exact Option.map_congr fun r _ => by simp [String.append_assoc]
  · rfl

namespace Session

variable {σ : Session} {t : Target} {n : NodeId}

/-- An assignment is a write of the lines that it renders. -/
theorem begin_assignTo (ht : σ.target t = .node n) {d : Declared} {lines : String}
    (hd : d.render σ.appearance = .ok lines) :
    σ.begin (d.assignTo t) = σ.begin (.write t (.text lines)) := by
  have hk : Table.ofList d.keywords.entries = d.keywords := Table.empty_insertAll d.keywords
  have hr : declarationsOf σ.appearance (some (d.properties.getD .null)) d.keywords = .ok lines := by
    unfold declarationsOf
    rw [d.unshadowed, ← hd, Declared.render_eq_declarations]
  have ha : σ.store.assign σ.appearance n (d.properties.getD .null) d.keywords =
      σ.store.write n (.text lines) := by
    unfold Store.assign
    rw [hr]
    rfl
  show σ.onNode t _ = _
  unfold onNode
  rw [ht, begin_write ht, ← ha, hk]

/-- Declarations that are assigned one after the other are written as if at once. -/
theorem begin_assignTo_twice {selector : String} (ht : σ.target t = .node n)
    (hs : (σ.store.get n).selector = .text selector) (hi : incomplete selector = false)
    {first second : Declared} {lines : String} (hl : first.render σ.appearance = .ok lines) :
    ∃ σ₁ r₁, σ.begin (first.assignTo t) = .done σ₁ (.ok r₁) ∧
      ∀ more, second.render σ₁.appearance = .ok more →
        ∃ σ₂ r₂, σ₁.begin (second.assignTo t) = .done σ₂ (.ok r₂) ∧
          σ.begin (.write t (.text (lines ++ more))) = .done σ₂ (.ok r₂) := by
  let σ₁ : Session := { σ with store.forest := σ.store.forest.append n lines }
  have hget : σ₁.store.get n = { σ.store.get n with text := (σ.store.get n).text ++ lines } := by
    show ({ σ.store with forest := σ.store.forest.append n lines } : Store).get n = _
    rw [Store.get_append, if_pos ⟨rfl, Store.lt_next_of_selector hs⟩]
  refine ⟨σ₁, _, (begin_assignTo ht hl).trans (begin_write_text ht hs hi lines), fun more hm => ?_⟩
  have ht₁ : σ₁.target t = .node n := ht
  have hs₁ : (σ₁.store.get n).selector = .text selector := by rw [hget, hs]
  refine ⟨_, _, (begin_assignTo ht₁ hm).trans (begin_write_text ht₁ hs₁ hi more), ?_⟩
  rw [begin_write_text ht hs hi, ← Forest.append_append, hget, String.append_assoc]

end Session

/-- What is known of declarations, whatever is declared and however the objects look that it refers
to. -/
structure DeclarationsDecode : Prop where
  /-- what is rendered is one line for each item, in order, if all values can be shown -/
  lines : ∀ (d : Declared) look,
    (∀ item ∈ d.items, ∃ text, propertyValue look item.2 = .ok text) →
    ∃ pairs, d.ShownAs look pairs ∧ d.render look = .ok (declarationLines pairs)
  /-- and nothing if one cannot -/
  refused : ∀ (d : Declared) look front item back e, d.items = front ++ item :: back →
    (∀ i ∈ front, ∃ text, propertyValue look i.2 = .ok text) →
    propertyValue look item.2 = .error e → d.render look = .error e
  /-- the lines are read back if the names allow that, and no value is broken over lines -/
  decoded : ∀ (d : Declared) look pairs, d.ShownAs look pairs →
    (∀ key ∈ d.keys, Nameable key) → (∀ pair ∈ pairs, '\n' ∉ pair.2.toList) →
    Chars.declarations? (declarationLines pairs).toList = some pairs
  /-- items behind others are rendered behind them -/
  appended : ∀ (first second both : Declared) look, both.items = first.items ++ second.items →
    both.render look = do return (← first.render look) ++ (← second.render look)
  /-- declared one after the other where nothing is awaited, they are written as if at once -/
  assigned : ∀ (σ : Session) t n selector (first second : Declared) lines, σ.target t = .node n →
    (σ.store.get n).selector = .text selector → incomplete selector = false →
    first.render σ.appearance = .ok lines →
    ∃ σ₁ r₁, σ.begin (first.assignTo t) = .done σ₁ (.ok r₁) ∧
      ∀ more, second.render σ₁.appearance = .ok more →
        ∃ σ₂ r₂, σ₁.begin (second.assignTo t) = .done σ₂ (.ok r₂) ∧
          σ.begin (.write t (.text (lines ++ more))) = .done σ₂ (.ok r₂)

/-- Declarations are read back as their items. -/
theorem declarations_decode : DeclarationsDecode where
  lines d look h := by
    obtain ⟨pairs, hp⟩ := forall₂_of_shown h
    exact ⟨pairs, hp, by rw [Declared.render_eq, mapM_shownItem_eq_ok hp]; rfl⟩
  refused d look front item back e hd hf he := by
    rw [Declared.render_eq, hd, mapM_shownItem_eq_error hf he]
    rfl
  decoded d look pairs hp hk hv := Chars.declarations?_encode (hp.nameable hk) hv
  appended first second both look h := by
    rw [Declared.render_eq, Declared.render_eq, Declared.render_eq, h, List.mapM_append]
    cases first.items.mapM (shownItem look) with
    | error => rfl
    | ok ps =>
      cases second.items.mapM (shownItem look) with
      | error => rfl
      | ok qs => exact congrArg Except.ok (declarationLines_append ps qs)
  assigned _ _ _ _ _ _ _ ht hs hi hl := Session.begin_assignTo_twice ht hs hi hl

/-- A mapping of a single name. -/
def Declared.single (name : String) (value : Datum) : Declared where
  properties := some (.dict [(.text name, value)])
  entries := [(name, value)]
  keywords := .empty
  mapping := rfl
  unshadowed := rfl

theorem propertyValue_of_wide (look : Appearance) {n : Nat} (h : Nat.pow 10 maxDigits ≤ n) :
    propertyValue look (.int (Int.ofNat n)) = .error .tooManyDigits := by
  show writeInteger (Int.ofNat n) = _
  unfold writeInteger
  -- the bound is not to be computed
  generalize Nat.pow 10 maxDigits = bound at h ⊢
  exact if_neg (Nat.not_lt_of_le h)

theorem render_single_of_error {look : Appearance} {name : String} {value : Datum} {e : Error}
    (h : propertyValue look value = .error e) :
    (Declared.single name value).render look = .error e := by
  rw [Declared.render_eq]
  show Except.map _ (([] ++ [(name, value)]).mapM (shownItem look)) = _
  rw [mapM_shownItem_eq_error (by simp) h]
  rfl

/-- There is no line for a value that is too long to be written out. -/
theorem render_single_wide :
    let d := Declared.single "colour" (.int (Int.ofNat (Nat.pow 10 maxDigits)))
    d.render .plain = .error .tooManyDigits ∧
      ¬ ∃ pairs, d.ShownAs .plain pairs ∧ d.render .plain = .ok (declarationLines pairs) := by
  intro d
  have he : d.render .plain = .error .tooManyDigits :=
    render_single_of_error (propertyValue_of_wide .plain (Nat.le_refl (Nat.pow 10 maxDigits)))
  refine ⟨he, fun ⟨pairs, _, ho⟩ => ?_⟩
  rw [he] at ho
  cases ho

end RuleTree
