import RuleTree.Decimal.Double
import RuleTree.Error
import RuleTree.Identity
import RuleTree.Picture
import RuleTree.Script

/-!
# Data

The values that scripts pass as selectors, fragments, property values, hosts and option settings.
They are untyped on purpose: a rule set only finds out what it was given when it uses it.

* `Datum`: the values themselves, plain ones and references to objects;
* `Datum.identity?`, `Datum.identities`: the object that a value is, and all that it refers to;
* `Datum.truthy`: which values count as set;
* `Datum.equals`, `Datum.sameKey`, `Datum.ofPairs`: equality, sameness of dictionary keys, and
  dictionaries built entry by entry;
* `Datum.plus`: appending, which texts, lists and numbers allow;
* `Picture.toDatum`: a picture as a value;
* `Datum.entries?`, `Datum.items?`: the entries of a dictionary, and what walking over a value
  yields.

A reference shows nothing of the object behind it; what it looks like depends on when it is shown.
-/

namespace RuleTree

/-- A piece of data. -/
inductive Datum
  | null
  | bool (b : Bool)
  | int (n : Int)
  /-- a floating-point number, told apart from others for the sake of those that equal nothing -/
  | float (x : Double) (stamp : Stamp)
  | text (s : String)
  | list (items : List Datum)
  | dict (entries : List (Datum × Datum))
  /-- a kind of element -/
  | kind (name : String) (stamp : Stamp)
  /-- a naming rule -/
  | naming (rule : Naming) (stamp : Stamp)
  /-- a host -/
  | host (id : HostId)
  /-- a generator -/
  | generator (g : Generator)
  /-- a rule set -/
  | node (id : NodeId)
  /-- the children of a rule set -/
  | nodes (ids : List NodeId)
  /-- what a statement told, as a dictionary -/
  | answer (fields : List (String × Picture))

namespace Datum

instance : Inhabited Datum := ⟨null⟩

/-- Whether a value is the one that stands for nothing. -/
def isNull : Datum → Bool
  | .null => true
  | _ => false

/-- The object that a value is. Plain values, texts, lists and dictionaries are none. -/
def identity? : Datum → Option Identity
  | .kind _ stamp => some (.made stamp)
  | .naming _ stamp => some (.made stamp)
  | .host id => some (.host id)
  | .generator g => some (.generator g)
  | .node id => some (.node id)
  | _ => none

mutual

/-- The objects that a value refers to, at any depth. -/
def identities : Datum → List Identity
  | .list items => itemIdentities items
  | .dict entries => entryIdentities entries
  | .kind _ stamp => [.made stamp]
  | .naming _ stamp => [.made stamp]
  | .host id => [.host id]
  | .generator g => [.generator g]
  | .node id => [.node id]
  | .nodes ids => ids.map .node
  | _ => []

/-- The objects that a list of values refers to. -/
def itemIdentities : List Datum → List Identity
  | [] => []
  | d :: rest => identities d ++ itemIdentities rest

/-- The objects that dictionary entries refer to. -/
def entryIdentities : List (Datum × Datum) → List Identity
  | [] => []
  | (k, v) :: rest => identities k ++ identities v ++ entryIdentities rest

end

/-- Whether a value counts as set: everything but null, false, zero and what is empty. -/
def truthy : Datum → Bool
  | .null => false
  | .bool b => b
  | .int n => n != 0
  | .float x _ => !x.isZero
  | .text s => s != ""
  | .list items => !items.isEmpty
  | .dict entries => !entries.isEmpty
  | .nodes ids => !ids.isEmpty
  | .answer fields => !fields.isEmpty
  | _ => true

/-- The integer that a truth value or an integral number is equal to. -/
def toInt? : Datum → Option Int
  | .bool b => some (if b then 1 else 0)
  | .int n => some n
  | .float x _ => x.toInt?
  | _ => none

/-- Whether two values are the same object. -/
def sameObject (a b : Datum) : Bool :=
  match a, b with
  | .float _ s, .float _ t => s == t
  | a, b =>
    match a.identity?, b.identity? with
    | some i, some j => i == j
    | _, _ => false

/-- Whether two values that may be dictionary keys are equal, given when two objects are. Numbers
are equal whatever their form; what is no number is equal to nothing, not even to itself. -/
def equals (equal : Identity → Identity → Bool) (a b : Datum) : Bool :=
  match a.toInt?, b.toInt? with
  | some m, some n => m == n
  | none, none =>
    match a.identity?, b.identity? with
    | some i, some j => equal i j
    | none, none =>
      match a, b with
      | .null, .null => true
      | .text s, .text t => s == t
      | .float .notNumber _, .float .notNumber _ => false
      | .float x _, .float y _ => x == y
      | .nodes xs, .nodes ys => xs == ys
      | _, _ => false
    | _, _ => false
  | _, _ => false

/-- Whether two values are the same dictionary key: the same object, or equal. -/
def sameKey (equal : Identity → Identity → Bool) (a b : Datum) : Bool :=
  sameObject a b || equals equal a b

/-- Whether a value may be a dictionary key, given which objects have a hash: lists and dictionaries
may not. -/
def isKey (hasHash : Identity → Bool) (d : Datum) : Bool :=
  match d with
  | .list _ => false
  | .dict _ => false
  | .answer _ => false
  | d => (d.identity?.map hasHash).getD true

/-- Enter a value in a dictionary: in the place of its key, or at the end. -/
def insertEntry (equal : Identity → Identity → Bool) (key value : Datum) :
    List (Datum × Datum) → List (Datum × Datum)
  | [] => [(key, value)]
  | (k, v) :: rest =>
    if sameKey equal k key then (k, value) :: rest
    else (k, v) :: insertEntry equal key value rest

/-- The entries of a list of pairs: a repeated key keeps its first place and its last value. -/
def entriesOfPairs (equal : Identity → Identity → Bool) (pairs : List (Datum × Datum)) :
    List (Datum × Datum) :=
  pairs.foldl (fun entries p => insertEntry equal p.1 p.2 entries) []

/-- The dictionary of a list of pairs. -/
def ofPairs (equal : Identity → Identity → Bool) (pairs : List (Datum × Datum)) : Datum :=
  .dict (entriesOfPairs equal pairs)

/-- Whether a value counts as a whole number in sums. -/
def wholeNumber? : Datum → Option Int
  | .bool b => some (if b then 1 else 0)
  | .int n => some n
  | _ => none

/-- A term of a sum as a floating-point number. An integer may lie beyond all of them. -/
def toDouble : Datum → Except Error Double
  | .float x _ => .ok x
  | d =>
    match d.wholeNumber? with
    | none => .error .notAppendable
    | some n =>
      match Double.ofInt? n with
      | some x => .ok x
      | none => .error .beyondFloats

/-- Whether a value is a number. Truth values are. -/
def isNumber : Datum → Bool
  | .bool _ => true
  | .int _ => true
  | .float _ _ => true
  | _ => false

/-- One value with another appended: texts and lists are joined end to end, numbers added, and
nothing else goes together. A floating-point sum is a new object with the stamp given. -/
def plus (stamp : Stamp) (a b : Datum) : Except Error Datum :=
  match a, b with
  | .text s, .text t => .ok (.text (s ++ t))
  | .list xs, .list ys => .ok (.list (xs ++ ys))
  | .nodes xs, .nodes ys => .ok (.nodes (xs ++ ys))
  | _, _ =>
    match a.wholeNumber?, b.wholeNumber? with
    | some m, some n => .ok (.int (m + n))
    | _, _ =>
      if a.isNumber && b.isNumber then do
        let x ← a.toDouble
        let y ← b.toDouble
        return .float (x.add y) stamp
      else .error .notAppendable

/-- What walking over a value yields: the characters of a text, the items of a list, the keys of a
dictionary. Rule sets are left out: what they yield depends on what they hold. -/
def items? : Datum → Option (List Datum)
  | .text s => some (s.toList.map fun c => .text (String.singleton c))
  | .list items => some items
  | .dict entries => some (entries.map Prod.fst)
  | .nodes ids => some (ids.map .node)
  | .answer fields => some (fields.map fun f => .text f.1)
  | _ => none

end Datum

namespace Picture

mutual

/-- A picture as a value. A record stays what was told. -/
def toDatum : Picture → Datum
  | .null => .null
  | .bool b => .bool b
  | .int n => .int n
  | .text s => .text s
  | .list items => .list (toData items)
  | .record fields => .answer fields

/-- The values of a list of pictures. -/
def toData : List Picture → List Datum
  | [] => []
  | p :: rest => toDatum p :: toData rest

end

end Picture

namespace Datum

/-- The entries of a dictionary. -/
def entries? : Datum → Option (List (Datum × Datum))
  | .dict entries => some entries
  | .answer fields => some (fields.map fun f => (.text f.1, f.2.toDatum))
  | _ => none

@[simp] theorem plus_text (stamp : Stamp) (s t : String) :
    plus stamp (.text s) (.text t) = .ok (.text (s ++ t)) := rfl

@[simp] theorem truthy_bool (b : Bool) : truthy (.bool b) = b := rfl

theorem itemIdentities_eq_flatMap (items : List Datum) :
    itemIdentities items = items.flatMap identities := by
  induction items with
  | nil => rfl
  | cons d rest ih => rw [itemIdentities, List.flatMap_cons, ih]

theorem mem_identities_of_identity? {d : Datum} {i : Identity} (h : d.identity? = some i) :
    i ∈ d.identities := by
  cases d <;> simp_all [identity?, identities]

end Datum

end RuleTree
