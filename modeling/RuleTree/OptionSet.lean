import RuleTree.Datum.Picture
import RuleTree.Selector.Method

/-!
# Options

The settings that all rule sets of one tree share.

* `OptionSet`: the three known options, and whatever else was set on a tree later on;
* `OptionSet.get?`, `OptionSet.set`: reading and setting one option;
* `OptionSet.links`: the objects that options keep alive;
* `OptionSet.entries`, `OptionSet.names`: the options in the order of their names;
* `mappingEntries`: the entries of a value that is taken as a mapping;
* `OptionSet.merge`: the defaults with the entries of a mapping over them; unknown names are
  refused, and all of them are reported;
* `OptionSet.defaults`: the defaults as a dictionary;
* `OptionSet.sample`, `OptionSet.probedPicture`: the sample kind that callable options are tried on,
  and what is told of such an option;
* `OptionSet.permanent`: the objects that are there for ever;
* `OptionSet.listingPicture`: what is told of a list of options;
* `Dictionaries`, `Dictionaries.fillIn`: dictionaries that can be changed, and options filled in
  step by step in a copy of one.

A setting may be any value. Whether it is on is a question of `Datum.truthy`.
-/

namespace RuleTree

/-- The options of a tree. -/
structure OptionSet where
  clearOnReset : Datum
  emitCustomProperties : Datum
  className : Datum
  extra : Table Datum

namespace OptionSet

/-- The name of the option that empties a rule set before it is reset. -/
def clearOnResetName : String := "clear_on_reset"

/-- The name of the option that writes custom properties. -/
def emitCustomPropertiesName : String := "emit_custom_properties"

/-- The name of the option that names kinds of elements. -/
def classNameName : String := "class_name"

/-- The known names. -/
def knownNames : List String := [clearOnResetName, emitCustomPropertiesName, classNameName]

/-- The naming rule of a tree that sets none. -/
def ownNaming : Datum := .naming .own 0

/-- The options of a tree that sets none. -/
def default : OptionSet where
  clearOnReset := .bool false
  emitCustomProperties := .bool false
  className := ownNaming
  extra := .empty

instance : Inhabited OptionSet := ⟨default⟩

/-- The value of an option. -/
def get? (o : OptionSet) (name : String) : Option Datum :=
  if name = clearOnResetName then some o.clearOnReset
  else if name = emitCustomPropertiesName then some o.emitCustomProperties
  else if name = classNameName then some o.className
  else o.extra.find? name

/-- Set an option, known or not. -/
def set (o : OptionSet) (name : String) (value : Datum) : OptionSet :=
  if name = clearOnResetName then { o with clearOnReset := value }
  else if name = emitCustomPropertiesName then { o with emitCustomProperties := value }
  else if name = classNameName then { o with className := value }
  else { o with extra := o.extra.insert name value }

theorem get?_set (o : OptionSet) (name : String) (value : Datum) (k : String) :
    (o.set name value).get? k = if k = name then some value else o.get? k := by
  unfold set get?
  by_cases h₁ : name = clearOnResetName
  · subst h₁; by_cases hk : k = clearOnResetName <;> simp [hk]
  by_cases h₂ : name = emitCustomPropertiesName
  · subst h₂
    by_cases hk : k = emitCustomPropertiesName
    · subst hk; simp [h₁]
    · by_cases hk' : k = clearOnResetName <;> simp [h₁, hk]
  by_cases h₃ : name = classNameName
  · subst h₃
    by_cases hk : k = classNameName
    · subst hk; simp [h₁, h₂]
    · simp [h₁, h₂, hk]
  by_cases hk : k = name
  · subst hk; simp [h₁, h₂, h₃]
  · simp [h₁, h₂, h₃, hk, Table.find?_insert]

/-- The objects that options refer to. -/
def links (o : OptionSet) : List Identity :=
  o.clearOnReset.identities ++ o.emitCustomProperties.identities ++ o.className.identities
    ++ o.extra.values.flatMap Datum.identities

/-- The options in the order of their names. -/
def entries (o : OptionSet) : List (String × Datum) :=
  let known := [(classNameName, o.className), (clearOnResetName, o.clearOnReset),
    (emitCustomPropertiesName, o.emitCustomProperties)]
  (known ++ o.extra.entries).mergeSort fun a b => decide (a.1 ≤ b.1)

/-- The names of the options, in order. -/
def names (o : OptionSet) : List String := o.entries.map Prod.fst

end OptionSet

/-- An item as key and value: walking over it must yield just two values, and the first of them must
do as a key. -/
def pairOf (item : Datum) : Except Error (Datum × Datum) :=
  match item.items? with
  | none => .error .notMapping
  | some [key, value] =>
    if key.isKey fun _ => true then .ok (key, value) else .error .notHashable
  | some _ => .error .notPairs

/-- The entries of a value that is taken as a mapping: nothing of a value that is not set, else a
dictionary's entries or the pairs that walking over it yields. -/
def mappingEntries (origin : Datum) : Except Error (List (Datum × Datum)) :=
  if origin.truthy then
    match origin.entries? with
    | some entries => .ok entries
    | none =>
      match origin.items? with
      | none => .error .notMapping
      | some items => do
        let pairs ← items.mapM pairOf
        return Datum.entriesOfPairs (· == ·) pairs
  else .ok []

/-- The text of a key. -/
def keyText? : Datum → Option String
  | .text s => some s
  | _ => none

/-- The keys that name no option. -/
def unknownKeys (entries : List (Datum × Datum)) : List Datum :=
  (entries.map Prod.fst).filter fun key =>
    match keyText? key with
    | some name => !OptionSet.knownNames.contains name
    | none => true

/-- Names in code point order. -/
def sortNames (names : List String) : List String := names.mergeSort fun a b => decide (a ≤ b)

namespace OptionSet

/-- Set the options of a list of entries, one after the other. -/
def setAll (o : OptionSet) (entries : List (Datum × Datum)) : OptionSet :=
  entries.foldl (fun o e => match e.1 with
    | .text name => o.set name e.2
    | _ => o) o

/-- The defaults with a mapping over them. All unknown names are reported, in code point order. -/
def merge (origin : Datum) : Except Error OptionSet := do
  let entries ← mappingEntries origin
  let unknown := unknownKeys entries
  let names ← unknown.mapM fun key => match keyText? key with
    | some name => .ok name
    | none => .error Error.nameNotText
  if names.isEmpty then return default.setAll entries
  else .error (.unknownOptions (sortNames names))

/-- The options of a tree that sets none, as a dictionary. -/
def defaults : Table Datum :=
  .ofList [(clearOnResetName, default.clearOnReset),
    (emitCustomPropertiesName, default.emitCustomProperties), (classNameName, default.className)]

/-- The name of the sample kind. -/
def sampleName : String := "Probe"

/-- The sample kind of element that callable options are tried on. -/
def sample : Datum := .kind sampleName 1

/-- The objects that are there for ever: the naming rule of trees that set none, and the sample
kind. -/
def permanent : List Identity := ownNaming.identities ++ sample.identities

/-- What is told of a callable option that gave a value of a given picture for the sample. -/
def probedPicture (given : Picture) : Picture := .record [("naming_probe", given)]

/-- What is told of a list of options: pairs of the name and what is told of the option. -/
def listingPicture (listed : List (String × Picture)) : Picture :=
  .list (listed.map fun e => .list [.text e.1, e.2])

end OptionSet

/-! ### In a copy -/

/-- Dictionaries that can be changed, each under its number. -/
abbrev Dictionaries := Array (Table Datum)

namespace Dictionaries

/-- Steps that change dictionaries. A failure takes nothing back. -/
abbrev Steps := ExceptT Error (StateM Dictionaries)

/-- The entries of a dictionary. -/
def look (d : Nat) : Steps (Table Datum) := return (← get).getD d .empty

/-- Copy a dictionary. -/
def copy (d : Nat) : Steps Nat := do
  let s ← get
  set (s.push (s.getD d .empty))
  return s.size

/-- Enter a value in a dictionary. -/
def enter (d : Nat) (name : String) (value : Datum) : Steps Unit :=
  modify fun s => s.modify d fun t => t.insert name value

/-- Enter a value under a name, unless there is one. -/
def supply (d : Nat) (e : String × Datum) : Steps Unit := do
  let t ← look d
  enter d e.1 ((t.find? e.1).getD e.2)

/-- Refuse the names of a copy that are not among the known ones, or else enter these in it. -/
def complete (own : Nat) (given known : Table Datum) : Steps Nat := do
  let unknown := given.keys.filter fun name => !known.contains name
  if unknown.isEmpty then
    known.entries.forM (supply own)
    return own
  else throw (.unknownOptions (sortNames unknown))

/-- Copy a dictionary of options, and complete the copy with defaults. -/
def fillIn (origin defaults : Nat) : Steps Nat := do
  let own ← copy origin
  complete own (← look own) (← look defaults)

end Dictionaries

end RuleTree
