import RuleTree.Text.Quoted

/-!
# Pictures

What is told of values and results: plain data without references to anything.

* `Picture`: the plain data; `Form`: whether it says what kind of value it tells of;
* `dictPicture`, `widePicture`: a dictionary and an integer that are marked as such;
* `nullLabel`, `boolLabel`, `listLabel`, `entryLabel`, `dictLabel`: how values without references
  look in diagnostics;
* `Picture.label`: a picture as diagnostics show it, a record like a dictionary;
* `Picture.nested`: a picture as it is told as part of a value: a record as a dictionary;
* `Picture.field?`: a pair of name and picture as the field of a record.
-/

namespace RuleTree

/-- Plain data. -/
inductive Picture
  | null
  | bool (b : Bool)
  | int (n : Int)
  | text (s : String)
  | list (items : List Picture)
  | record (fields : List (String × Picture))

/-- How values are told: what is no plain data is marked as what it is, or told as it stands. -/
inductive Form
  | marked
  | raw

/-- The integers of a smaller absolute value are told as numbers. -/
def exactBound : Nat := Nat.pow 2 53

/-- A dictionary that is marked as such, of whose entries these are the pairs of key and value. -/
def dictPicture (entries : List Picture) : Picture := .record [("dict", .list entries)]

/-- An integer that is marked as such, written in these digits. -/
def widePicture (digits : String) : Picture := .record [("int", .text digits)]

/-- The value that stands for nothing, in diagnostics. -/
def nullLabel : String := "None"

/-- A truth value in diagnostics. -/
def boolLabel (b : Bool) : String := if b then "True" else "False"

/-- A list of items with given labels. -/
def listLabel (items : List String) : String := "[" ++ ", ".intercalate items ++ "]"

/-- An entry whose key and value have given labels. -/
def entryLabel (key value : String) : String := key ++ ": " ++ value

/-- A dictionary of entries with given labels. -/
def dictLabel (entries : List String) : String := "\x7b" ++ ", ".intercalate entries ++ "\x7d"

namespace Picture

mutual

/-- A picture as diagnostics show it. -/
def label : Picture → String
  | .null => nullLabel
  | .bool b => boolLabel b
  | .int n => toString n
  | .text s => Text.quoted s
  | .list items => listLabel (labels items)
  | .record fields => dictLabel (fieldLabels fields)

/-- The labels of a list of pictures. -/
def labels : List Picture → List String
  | [] => []
  | p :: rest => label p :: labels rest

/-- The labels of the fields of a record. -/
def fieldLabels : List (String × Picture) → List String
  | [] => []
  | (name, p) :: rest => entryLabel (Text.quoted name) (label p) :: fieldLabels rest

end

mutual

/-- A picture as it is told as part of a value. -/
def nested : Picture → Picture
  | .int n => if n.natAbs < exactBound then .int n else widePicture (toString n)
  | .list items => .list (nestedItems items)
  | .record fields => dictPicture (nestedFields fields)
  | p => p

/-- A list of pictures as they are told as parts of a value. -/
def nestedItems : List Picture → List Picture
  | [] => []
  | p :: rest => nested p :: nestedItems rest

/-- The fields of a record as they are told as parts of a value: pairs of name and picture. -/
def nestedFields : List (String × Picture) → List Picture
  | [] => []
  | (name, p) :: rest => .list [.text name, nested p] :: nestedFields rest

end

/-- The field of a record that a pair of key and value stands for, if the key is a text. -/
def field? : Picture → Option (String × Picture)
  | .list [.text name, p] => some (name, p)
  | _ => none

end Picture

end RuleTree
