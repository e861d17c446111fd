import RuleTree.Datum.Printer

/-!
# What is told of values

* `Views`: what is told of the objects that data refer to, and how values are told;
* `Form.int`, `Form.dict`, `Form.answer`: what is told of an integer, of a dictionary and of an
  earlier answer, marked or as it stands;
* `Datum.picture`: what is told of a value: plain values as they are, all else in a record that says
  what it is;
* `Datum.told`: what is told of a value that stands by itself.

What a statement told is told again as it was if it stands by itself, and as a dictionary if it is
part of a value. A marked integer is a number only if it is exact in double precision. Telling may
fail, since integers can be too long to write.
-/

namespace RuleTree

/-- What is told of objects, the names of hosts and pictures of rule sets; and how all else is told.
-/
structure Views where
  host : HostId → String
  node : NodeId → Except Error Picture
  form : Form

/-- What is told of objects where there are none. -/
def Views.plain : Views := ⟨fun _ => "", fun _ => .ok .null, .marked⟩

namespace Form

/-- What is told of an integer. -/
def int (form : Form) (n : Int) : Except Error Picture :=
  if n.natAbs < exactBound then .ok (.int n)
  else (writeInteger n).map fun digits =>
    match form with
    | marked => widePicture digits
    | raw => .int n

/-- What is told of a dictionary, of whose entries these are the pairs of key and value. As it
stands it is a record, if its keys are texts. -/
def dict (form : Form) (entries : List Picture) : Picture :=
  match form with
  | marked => dictPicture entries
  | raw => ((entries.mapM Picture.field?).map Picture.record).getD (dictPicture entries)

/-- What is told of an earlier answer. -/
def answer (form : Form) (fields : List (String × Picture)) : Picture :=
  match form with
  | marked => (Picture.record fields).nested
  | raw => .record fields

end Form

namespace Datum

/-- What is told of a host with a given name. -/
def hostPicture (name : String) : Picture := .record [("host", .text name)]

/-- What is told of a rule set whose selector has a given picture. -/
def nodePicture (selector : Picture) : Picture := .record [("node", selector)]

mutual

/-- What is told of a value. -/
def picture (views : Views) : Datum → Except Error Picture
  | .null => .ok .null
  | .bool b => .ok (.bool b)
  | .int n => views.form.int n
  | .float x _ => .ok (.record [("float", .text (x.text numberLayout))])
  | .text s => .ok (.text s)
  | .list items => (pictures views items).map .list
  | .dict entries => (entryPictures views entries).map views.form.dict
  | .kind name _ => .ok (.record [("class", .text name)])
  | .naming _ _ => .ok (.text "naming")
  | .host id => .ok (hostPicture (views.host id))
  | .generator g => .ok (.record [("named", .text g.name)])
  | .node id => views.node id
  | .nodes ids => (ids.mapM views.node).map .list
  | .answer fields => .ok (views.form.answer fields)

/-- What is told of a list of values. -/
def pictures (views : Views) : List Datum → Except Error (List Picture)
  | [] => .ok []
  | d :: rest => do
    let first ← picture views d
    let others ← pictures views rest
    return first :: others

/-- What is told of dictionary entries: pairs of key and value. -/
def entryPictures (views : Views) : List (Datum × Datum) → Except Error (List Picture)
  | [] => .ok []
  | (k, v) :: rest => do
    let key ← picture views k
    let value ← picture views v
    let others ← entryPictures views rest
    return .list [key, value] :: others

end

/-- What is told of a value that stands by itself. -/
def told (views : Views) : Datum → Except Error Picture
  | .answer fields => .ok (.record fields)
  | d => d.picture views

@[simp] theorem told_answer (views : Views) (fields : List (String × Picture)) :
    told views (.answer fields) = .ok (.record fields) := rfl

@[simp] theorem picture_text (views : Views) (s : String) :
    picture views (.text s) = .ok (.text s) := by simp only [picture]

end Datum

end RuleTree
