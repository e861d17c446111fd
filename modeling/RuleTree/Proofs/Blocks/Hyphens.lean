import RuleTree.Proofs.Blocks.Declarations

/-!
# Hyphens for capitals

The hyphenated form of a name can be turned back, as long as the name has no hyphens of its own.

* `Capital`, `capitals`: the capitals of the Latin alphabet, and how many a text has;
* `camelCase`: the capitals back in place of hyphens, `camelCase_propertyName`;
* `getElem?_propertyName`: what stands where in a hyphenated name;
* `Hyphenated`, `hyphenated`: what the hyphenated form keeps of a name.
-/

namespace RuleTree

/-- A capital of the Latin alphabet. -/
def Capital (c : Char) : Prop := 'A' ≤ c ∧ c ≤ 'Z'

instance (c : Char) : Decidable (Capital c) := inferInstanceAs (Decidable (_ ∧ _))

/-- How many capitals a text has. -/
def capitals (text : List Char) : Nat := text.countP fun c => decide (Capital c)

/-- A text in which each hyphen that a small letter of the Latin alphabet follows has become the
capital, with the letter. -/
def Chars.camelCase : List Char → List Char
  | '-' :: c :: rest =>
    if 'a' ≤ c ∧ c ≤ 'z' then c.toUpper :: camelCase rest else '-' :: camelCase (c :: rest)
  | c :: rest => c :: camelCase rest
  | [] => []

/-- A hyphenated name with its capitals back. -/
def camelCase (name : String) : String := String.ofList (Chars.camelCase name.toList)

/-! ### One character -/

section Character

variable {c : Char}

theorem isUpper_iff : c.isUpper = true ↔ Capital c := decide_eq_true_iff

theorem Capital.hyphenate (h : Capital c) : hyphenate c = ['-', c.toLower] :=
  if_pos (isUpper_iff.2 h)

theorem hyphenate_other (h : ¬ Capital c) : hyphenate c = [c] :=
  if_neg (mt isUpper_iff.1 h)

/-- The small letter of a capital lies in the small alphabet. -/
theorem Capital.toLower (h : Capital c) : 'a' ≤ c.toLower ∧ c.toLower ≤ 'z' := by
  obtain ⟨hl, hu⟩ := Bool.and_eq_true_iff.1 (isLower_toLower (isUpper_iff.2 h))
  exact ⟨of_decide_eq_true hl, of_decide_eq_true hu⟩

theorem not_capital_of_small (h : 'a' ≤ c) : ¬ Capital c :=
  fun hc => absurd (Char.le_trans h hc.2) (by decide)

theorem Capital.toUpper_toLower (h : Capital c) : c.toLower.toUpper = c := by
  have all : ∀ n ∈ List.range' 65 26, (Char.ofNat n).toLower.toUpper = Char.ofNat n := by decide
  have hc := all c.toNat (List.mem_range'_1.2 ⟨h.1, Nat.lt_succ_of_le h.2⟩)
  rwa [Char.ofNat_toNat] at hc

end Character

/-! ### A name -/

variable {key : String} {text : List Char} {c : Char} {i : Nat}

theorem toList_propertyName : (propertyName key).toList = key.toList.flatMap hyphenate :=
  String.toList_ofList

theorem capitals_cons : capitals (c :: text) = capitals text + if Capital c then 1 else 0 := by
  simp [capitals, List.countP_cons]

theorem length_hyphenate : (hyphenate c).length = 1 + if Capital c then 1 else 0 := by
  by_cases h : Capital c
  · rw [h.hyphenate, if_pos h]
    rfl
  · rw [hyphenate_other h, if_neg h]
    rfl

/-- A hyphenated text is longer by one for each capital. -/
theorem length_flatMap_hyphenate :
    (text.flatMap hyphenate).length = text.length + capitals text := by
  induction text with
  | nil => rfl
  | cons c text ih =>
    rw [List.flatMap_cons, List.length_append, length_hyphenate, ih, capitals_cons,
      List.length_cons]
    omega

/-- What a hyphenated text has from the place on where a character has come. -/
theorem drop_flatMap_hyphenate (h : text[i]? = some c) :
    (text.flatMap hyphenate).drop (i + capitals (text.take i)) =
      hyphenate c ++ (text.drop (i + 1)).flatMap hyphenate := by
  obtain ⟨hi, rfl⟩ := List.getElem?_eq_some_iff.1 h
  have hl : ((text.take i).flatMap hyphenate).length = i + capitals (text.take i) := by
    rw [length_flatMap_hyphenate, List.length_take_of_le hi.le]
  have hs : text.flatMap hyphenate = (text.take i).flatMap hyphenate ++
      (hyphenate text[i] ++ (text.drop (i + 1)).flatMap hyphenate) := by
    rw [← List.flatMap_cons, List.getElem_cons_drop, ← List.flatMap_append, List.take_append_drop]
  rw [hs, ← hl, List.drop_left]

theorem not_capital_of_mem_flatMap (h : c ∈ text.flatMap hyphenate) : ¬ Capital c := by
  obtain ⟨d, -, hc⟩ := List.mem_flatMap.1 h
  by_cases hd : Capital d
  · rw [hd.hyphenate, List.mem_cons, List.mem_singleton] at hc
    rcases hc with rfl | rfl
    · decide
    · exact not_capital_of_small hd.toLower.1
  · rw [hyphenate_other hd, List.mem_singleton] at hc
    exact hc ▸ hd

/-- Nothing happens to a text without capitals. -/
theorem flatMap_hyphenate_of_small (h : ∀ c ∈ text, ¬ Capital c) :
    text.flatMap hyphenate = text := by
  induction text with
  | nil => rfl
  | cons c text ih =>
    rw [List.flatMap_cons, hyphenate_other (h c List.mem_cons_self),
      ih fun d hd => h d (List.mem_cons_of_mem _ hd)]
    rfl

theorem Chars.camelCase_cons (h : c ≠ '-') : camelCase (c :: text) = c :: camelCase text := by
  rw [camelCase]
  exact fun _ _ hc => absurd hc h

/-- The hyphens of a text without hyphens of its own are turned back. -/
theorem Chars.camelCase_flatMap_hyphenate (h : '-' ∉ text) :
    camelCase (text.flatMap hyphenate) = text := by
  induction text with
  | nil => rfl
  | cons c text ih =>
    rw [List.mem_cons, not_or] at h
    rw [List.flatMap_cons]
    by_cases hc : Capital c
    · rw [hc.hyphenate, List.cons_append, List.cons_append, List.nil_append, camelCase,
        if_pos hc.toLower, hc.toUpper_toLower, ih h.2]
    · rw [hyphenate_other hc, List.cons_append, List.nil_append, camelCase_cons (Ne.symm h.1),
        ih h.2]

theorem camelCase_propertyName (h : '-' ∉ key.toList) : camelCase (propertyName key) = key := by
  rw [camelCase, toList_propertyName, Chars.camelCase_flatMap_hyphenate h, String.ofList_toList]

/-- What stands in a hyphenated name where a character has come. -/
theorem getElem?_propertyName (h : key.toList[i]? = some c) (k : Nat)
    (hk : k < (hyphenate c).length) :
    (propertyName key).toList[i + capitals (key.toList.take i) + k]? = (hyphenate c)[k]? := by
  rw [toList_propertyName, ← List.getElem?_drop, drop_flatMap_hyphenate h,
    List.getElem?_append_left hk]

theorem propertyName_append (a b : String) :
    propertyName (a ++ b) = propertyName a ++ propertyName b := by
  rw [propertyName, String.toList_append, List.flatMap_append, String.ofList_append]
  rfl

theorem length_propertyName :
    (propertyName key).length = key.length + capitals key.toList := by
  rw [← String.length_toList, toList_propertyName, length_flatMap_hyphenate, String.length_toList]

theorem propertyName_eq_self_iff : propertyName key = key ↔ ∀ c ∈ key.toList, ¬ Capital c := by
  constructor
  · intro h c hc
    rw [← h, toList_propertyName] at hc
    exact not_capital_of_mem_flatMap hc
  · intro h
    rw [propertyName, flatMap_hyphenate_of_small h, String.ofList_toList]

/-- What the hyphenated form keeps of a name. -/
structure Hyphenated : Prop where
  /-- The form of two names in a row is made of their forms. -/
  append : ∀ a b, propertyName (a ++ b) = propertyName a ++ propertyName b
  /-- No capital is left. -/
  small : ∀ key, ∀ c ∈ (propertyName key).toList, ¬ Capital c
  /-- There is one character more for each capital. -/
  length : ∀ key, (propertyName key).length = key.length + capitals key.toList
  /-- A character that is no capital stays, moved on by the capitals before it. -/
  other : ∀ key i c, key.toList[i]? = some c → ¬ Capital c →
    (propertyName key).toList[i + capitals (key.toList.take i)]? = some c
  /-- In the place of a capital there are a hyphen and its small letter. -/
  capital : ∀ key i c, key.toList[i]? = some c → Capital c →
    (propertyName key).toList[i + capitals (key.toList.take i)]? = some '-' ∧
      (propertyName key).toList[i + capitals (key.toList.take i) + 1]? = some c.toLower
  /-- The names that stay as they are have no capitals. -/
  unchanged : ∀ key, propertyName key = key ↔ ∀ c ∈ key.toList, ¬ Capital c
  /-- The form of a form is itself. -/
  idempotent : ∀ key, propertyName (propertyName key) = propertyName key
  /-- A name without hyphens is turned back. -/
  inverse : ∀ key, '-' ∉ key.toList → camelCase (propertyName key) = key
  /-- Two names without hyphens have different forms. -/
  injective : ∀ a b, '-' ∉ a.toList → '-' ∉ b.toList → propertyName a = propertyName b → a = b

theorem hyphenated : Hyphenated where
  append := propertyName_append
  small key c hc := by
    rw [toList_propertyName] at hc
    exact not_capital_of_mem_flatMap hc
  length _ := length_propertyName
  other key i c h hc := by
    have hk := getElem?_propertyName h 0 (by rw [hyphenate_other hc]; exact Nat.one_pos)
    rwa [hyphenate_other hc] at hk
  capital key i c h hc := by
    have hl : (hyphenate c).length = 2 := by rw [hc.hyphenate]; rfl
    have h₀ := getElem?_propertyName h 0 (by omega)
    have h₁ := getElem?_propertyName h 1 (by omega)
    rw [hc.hyphenate] at h₀ h₁
    exact ⟨h₀, h₁⟩
  unchanged _ := propertyName_eq_self_iff
  idempotent key := by
    rw [propertyName_eq_self_iff, toList_propertyName]
    exact fun c => not_capital_of_mem_flatMap
  inverse _ := camelCase_propertyName
  injective a b ha hb h := by
    rw [← camelCase_propertyName ha, h, camelCase_propertyName hb]

/-- A hyphen in a name is taken for one that stands for a capital. -/
example : propertyName "-a" = propertyName "A" ∧ camelCase (propertyName "-a") = "A" := by decide

end RuleTree
