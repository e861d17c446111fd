import RuleTree.Datum.Picture

/-!
# Error reports

* `ErrorReport`: what is told of an error: its family, its message and the value at fault;
* `Error.report`: the report of an error;
* `ErrorFamily.report`: the report of an error that a caller makes up from values of its own;
* `ErrorFamily.name`, `ErrorFamily.subjectName`: what a family and the value at fault are called;
* `ErrorReport.fields`, `Error.picture`: a report as plain data.

Only style sheet errors and those raised on purpose carry a message.
-/

namespace RuleTree

/-- What is told of an error. -/
structure ErrorReport where
  family : ErrorFamily
  message : Option String
  subject : Option Picture

namespace Error

/-- The message of an incomplete selector with a given label. -/
def incompleteMessage (label : String) : String :=
  "Cannot write rules for incomplete selector " ++ label

/-- The message of an undefined reference. -/
def undefinedMessage (name : String) : String := name ++ " is not defined"

/-- The message of a missing generator. -/
def missingMessage : String := "You must provide a valid CSS generator"

/-- The message of unknown options. -/
def unknownMessage (names : List String) : String :=
  "Unknown style sheet option(s): " ++ ", ".intercalate names

/-- The message of a host given twice. -/
def hostTwiceMessage : String :=
  "Pass the host either positionally or with the `host` keyword, not both"

/-- The message of an error, for the families that have one. -/
def message : Error → Option String
  | .incompleteSelector selector => some (incompleteMessage (Text.quoted selector))
  | .undefinedReference name => some (undefinedMessage name)
  | .missingGenerator => some missingMessage
  | .unknownOptions names => some (unknownMessage names)
  | .hostTwice => some hostTwiceMessage
  | .raised text => some text
  | _ => none

/-- The value that an error is about. -/
def subject : Error → Option Picture
  | .incompleteSelector selector => some (.text selector)
  | .undefinedReference name => some (.text name)
  | .unknownOptions names => some (.list (names.map .text))
  | _ => none

/-- The report of an error. -/
def report (e : Error) : ErrorReport := ⟨e.family, e.message, e.subject⟩

end Error

namespace ErrorFamily

/-- The message of a plain error: nothing, its one argument, or the list of its arguments. -/
def plainMessage : List Datum → Except Error String
  | [] => .ok ""
  | [d] => d.spelled .plain
  | ds => (Datum.labels .plain ds).map fun texts => "(" ++ ", ".intercalate texts ++ ")"

/-- The report of an error made up from arguments. An incomplete selector may come with a message
of its own, which only replaces the usual one if it is set. -/
def report : ErrorFamily → List Datum → Except Error ErrorReport
  | .styleSheet, args => (plainMessage args).map fun text => ⟨.styleSheet, some text, none⟩
  | .incompleteSelector, [selector] => do
    let label ← selector.label .plain
    let subject ← selector.picture .plain
    return ⟨.incompleteSelector, some (Error.incompleteMessage label), some subject⟩
  | .incompleteSelector, [selector, message] => do
    let text ← if message.truthy then message.spelled .plain
      else (selector.label .plain).map Error.incompleteMessage
    let subject ← selector.picture .plain
    return ⟨.incompleteSelector, some text, some subject⟩
  | .undefinedReference, [name] => do
    let text ← name.spelled .plain
    let subject ← name.picture .plain
    return ⟨.undefinedReference, some (Error.undefinedMessage text), some subject⟩
  | .missingGenerator, [] => .ok ⟨.missingGenerator, some Error.missingMessage, none⟩
  | .missingGenerator, [message] => do
    let text ← message.spelled .plain
    return ⟨.missingGenerator, some text, none⟩
  | .options, [unknown] => do
    let names ← unknown.texts .plain
    let subject ← unknown.picture .plain
    return ⟨.options, some (Error.unknownMessage names), some subject⟩
  | _, _ => .error .badArguments

/-- The name of a family. -/
def name : ErrorFamily → String
  | .styleSheet => "StyleSheetError"
  | .incompleteSelector => "IncompleteSelectorError"
  | .undefinedReference => "UndefinedReferenceError"
  | .missingGenerator => "MissingGeneratorError"
  | .options => "OptionsError"
  | .raised => "RuntimeError"
  | .type => "TypeError"
  | .access => "AttributeError"
  | .value => "ValueError"
  | .position => "IndexError"
  | .overflow => "OverflowError"

/-- What the value at fault is called. -/
def subjectName : ErrorFamily → String
  | .incompleteSelector => "selector"
  | .undefinedReference => "name"
  | _ => "unknown"

end ErrorFamily

/-- The fields of a report: the family, and the message and the value at fault if there are any. -/
def ErrorReport.fields (r : ErrorReport) : List (String × Picture) :=
  ("error", .text r.family.name) ::
    ((r.message.map fun text => ("message", Picture.text text)).toList
      ++ (r.subject.map fun p => (r.family.subjectName, p)).toList)

/-- What is told of an error. -/
def Error.picture (e : Error) : Picture := .record e.report.fields

end RuleTree
