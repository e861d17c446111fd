import RuleTree.Datum
import RuleTree.Decimal.Reading
import RuleTree.Decimal.Shortest
import RuleTree.Text.Quoted

/-!
# Data as text

* `Appearance`: how the objects look that data refer to;
* `Datum.numberLayout`: how floating-point numbers are laid out;
* `Datum.label`: a value as diagnostics show it, texts between quotes;
* `Datum.spelled`: a value as it stands in generated text, a text as it is and a rule set by its
  blocks;
* `Datum.texts`: the texts that walking over a value yields.

The first two differ on texts and rule sets only. Inside lists and dictionaries every item is shown
by its label. Both may fail, since integers can be too long to write and rule sets can fail to show
their blocks.
-/

namespace RuleTree

/-- How objects look: the names of hosts, and labels and blocks of rule sets. -/
structure Appearance where
  host : HostId → String
  node : NodeId → Except Error String
  blocks : NodeId → Except Error (List String)

/-- The appearance of objects where there are none. -/
def Appearance.plain : Appearance := ⟨fun _ => "", fun _ => .ok "", fun _ => .ok []⟩

namespace Datum

/-- Numbers from `10 ^ -4` up to `10 ^ 16` are written positionally, others with a signed exponent
of at least two digits. -/
def numberLayout : DecimalLayout where
  leastPositional := -4
  firstScientific := 16
  exponentWidth := 2

/-- The label of a host with a given name. -/
def hostLabel (name : String) : String := "<host " ++ name ++ ">"

/-- The label of a generator with a given name. -/
def generatorLabel (name : String) : String := "<generator " ++ name ++ ">"

/-- The label of several rule sets; a single one is followed by a comma. -/
def nodesLabel : List String → String
  | [single] => "(" ++ single ++ ",)"
  | several => "(" ++ ", ".intercalate several ++ ")"

mutual

/-- A value as diagnostics show it. -/
def label (look : Appearance) : Datum → Except Error String
  | .null => .ok nullLabel
  | .bool b => .ok (boolLabel b)
  | .int n => writeInteger n
  | .float x _ => .ok (x.text numberLayout)
  | .text s => .ok (Text.quoted s)
  | .list items => (labels look items).map listLabel
  | .dict entries => (entryLabels look entries).map dictLabel
  | .kind name _ => .ok ("<class " ++ Text.quoted name ++ ">")
  | .naming _ _ => .ok "<naming>"
  | .host id => .ok (hostLabel (look.host id))
  | .generator g => .ok (generatorLabel g.name)
  | .node id => look.node id
  | .nodes ids => (ids.mapM look.node).map nodesLabel
  | .answer fields => .ok (Picture.record fields).label

/-- The labels of a list of values. -/
def labels (look : Appearance) : List Datum → Except Error (List String)
  | [] => .ok []
  | d :: rest => do
    let first ← label look d
    let others ← labels look rest
    return first :: others

/-- The labels of dictionary entries, key and value with a colon between them. -/
def entryLabels (look : Appearance) : List (Datum × Datum) → Except Error (List String)
  | [] => .ok []
  | (k, v) :: rest => do
    let key ← label look k
    let value ← label look v
    let others ← entryLabels look rest
    return entryLabel key value :: others

end

/-- A value as it stands in generated text. -/
def spelled (look : Appearance) : Datum → Except Error String
  | .text s => .ok s
  | .node id => (look.blocks id).map String.join
  | d => d.label look

/-- The texts that walking over a value yields; every item has to be one. A rule set yields its
blocks. -/
def texts (look : Appearance) (d : Datum) : Except Error (List String) :=
  match d with
  | .node id => look.blocks id
  | d =>
    match d.items? with
    | none => .error .notJoinable
    | some items => items.mapM fun
      | .text s => .ok s
      | _ => .error .notJoinable

@[simp] theorem spelled_text (look : Appearance) (s : String) :
    spelled look (.text s) = .ok s := rfl

@[simp] theorem label_text (look : Appearance) (s : String) :
    label look (.text s) = .ok (Text.quoted s) := by simp only [label]

end Datum

end RuleTree
