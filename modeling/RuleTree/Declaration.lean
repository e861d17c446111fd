import RuleTree.Datum.Printer
import RuleTree.Table

/-!
# Declarations

Properties and values as the lines of a rule.

* `propertyName`: camel case to hyphens: every capital of the Latin alphabet becomes a hyphen and
  the small letter;
* `propertyValue`: a value as CSS shows it;
* `declarationLine`: one declaration;
* `declarations`: the lines of a mapping and of keywords, where a keyword writes hyphens as `_`.
-/

namespace RuleTree

/-- A character of a property name. -/
def hyphenate (c : Char) : List Char :=
  if c.isUpper then ['-', c.toLower] else [c]

/-- A property name in its hyphenated form. -/
def propertyName (key : String) : String := String.ofList (key.toList.flatMap hyphenate)

/-- The hyphenated form of a key, which must be text. -/
def propertyName? : Datum → Except Error String
  | .text key => .ok (propertyName key)
  | _ => .error .nameNotText

/-- A value as CSS shows it: truth values in small letters, all else as it is spelled. -/
def propertyValue (look : Appearance) : Datum → Except Error String
  | .bool b => .ok (if b then "true" else "false")
  | d => d.spelled look

/-- One declaration on a line of its own. -/
def declarationLine (name value : String) : String := name ++ ": " ++ value ++ ";\n"

/-- The entries of a property mapping; a value that is not set has none. -/
def propertyEntries (properties : Datum) : Except Error (List (Datum × Datum)) :=
  if properties.truthy then
    match properties.entries? with
    | some entries => .ok entries
    | none => .error .propertiesNotMapping
  else .ok []

/-- A keyword as a property key. -/
def keywordKey (keyword : String) : String :=
  String.ofList (keyword.toList.map fun c => if c = '_' then '-' else c)

/-- The items that a mapping and keywords declare: the mapping's entries, then the keywords. -/
def declarationItems (properties : Datum) (keywords : Table Datum) :
    Except Error (List (Datum × Datum)) :=
  (propertyEntries properties).map fun entries =>
    entries ++ keywords.entries.map fun e => (.text (keywordKey e.1), e.2)

/-- The line of one item. -/
def itemLine (look : Appearance) (item : Datum × Datum) : Except Error String := do
  let name ← propertyName? item.1
  let value ← propertyValue look item.2
  return declarationLine name value

/-- The lines of a mapping and of keywords. -/
def declarations (look : Appearance) (properties : Datum) (keywords : Table Datum) :
    Except Error String := do
  let items ← declarationItems properties keywords
  let lines ← items.mapM (itemLine look)
  return String.join lines

/-- The parameter of `declarations` that the mapping is passed in. -/
def propertiesParameter : String := "properties"

/-- The lines of a mapping that may be left out, and of keywords. A keyword with the name of the
mapping's parameter stands for the mapping, so it must not come beside one. -/
def declarationsOf (look : Appearance) (properties : Option Datum) (keywords : Table Datum) :
    Except Error String :=
  match properties, keywords.find? propertiesParameter with
  | some _, some _ => .error .badArguments
  | some d, none => declarations look d keywords
  | none, some d => declarations look d (keywords.erase propertiesParameter)
  | none, none => declarations look .null keywords

end RuleTree
