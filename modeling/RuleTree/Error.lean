/-!
# Errors

Everything that can go wrong, by cause.

* `Error`: the causes;
* `ErrorFamily`: the families that callers tell apart, and `ErrorFamily.kinds`, what a family counts
  as;
* `Error.family`: the family of a cause.
-/

namespace RuleTree

/-- A reason to fail. -/
inductive Error
  /-- rules were written for a selector that still awaits a target -/
  | incompleteSelector (selector : String)
  /-- a custom property was referenced outside its scope -/
  | undefinedReference (name : String)
  /-- there was nothing to call where a generator was due -/
  | missingGenerator
  /-- options that no style sheet has -/
  | unknownOptions (names : List String)
  /-- the host was given twice -/
  | hostTwice
  /-- a failure that was asked for -/
  | raised (message : String)
  /-- something other than text was written, or a fragment does not fit its selector -/
  | notAppendable
  /-- selectors that are not a list of texts -/
  | notJoinable
  /-- a property name or option name that is no text -/
  | nameNotText
  /-- arguments that do not fit what was called -/
  | badArguments
  /-- a value was called that cannot be -/
  | notCallable
  /-- a host that cannot be referred to weakly -/
  | notReferable
  /-- a host or key that has no hash -/
  | notHashable
  /-- the scope of a rule set cannot be assigned to -/
  | scopeReadOnly
  /-- options that are no mapping -/
  | notMapping
  /-- entries that are no pairs -/
  | notPairs
  /-- a method that is not there -/
  | unknownMethod (name : String)
  /-- a selector that is no text was asked how it ends -/
  | selectorNotText
  /-- properties that are no mapping -/
  | propertiesNotMapping
  /-- a value without a name was asked for it -/
  | nameless
  /-- a naming rule was to give something that is not literal -/
  | notLiteral
  /-- there is no options set to read -/
  | noOptions
  /-- there is no rule set or iteration to act on -/
  | noTarget
  /-- a token that no combinator has -/
  | unknownToken
  /-- there is no child at this position -/
  | noChild
  /-- a value was walked over that yields nothing -/
  | notIterable
  /-- the name of a kind of element has a character that no such name may have -/
  | badName
  /-- text that is no number was read as one -/
  | notNumeral
  /-- an integer has more digits than are ever written or read -/
  | tooManyDigits
  /-- an integer lies beyond all floating-point numbers -/
  | beyondFloats
  /-- a template with a brace that neither belongs to a slot nor is doubled -/
  | badTemplate
  /-- a template with more slots than there are arguments -/
  | noArgument

/-- The families of errors that callers tell apart. -/
inductive ErrorFamily
  | styleSheet
  | incompleteSelector
  | undefinedReference
  | missingGenerator
  | options
  | raised
  | type
  | access
  | value
  | position
  | overflow
  deriving DecidableEq

/-- What an error may count as besides its own family. -/
inductive ErrorKind
  | styleSheet
  | name
  | type
  deriving DecidableEq

/-- What the errors of a family count as, the broadest first. -/
def ErrorFamily.kinds : ErrorFamily → List ErrorKind
  | .styleSheet => [.styleSheet]
  | .incompleteSelector => [.styleSheet]
  | .undefinedReference => [.styleSheet, .name]
  | .missingGenerator => [.styleSheet, .type]
  | .options => [.styleSheet, .type]
  | .type => [.type]
  | _ => []

/-- The family of an error. -/
def Error.family : Error → ErrorFamily
  | .incompleteSelector _ => .incompleteSelector
  | .undefinedReference _ => .undefinedReference
  | .missingGenerator => .missingGenerator
  | .unknownOptions _ => .options
  | .hostTwice => .styleSheet
  | .raised _ => .raised
  | .notAppendable => .type
  | .notJoinable => .type
  | .nameNotText => .type
  | .badArguments => .type
  | .notCallable => .type
  | .notReferable => .type
  | .notHashable => .type
  | .scopeReadOnly => .type
  | .notMapping => .type
  | .notPairs => .value
  | .unknownMethod _ => .access
  | .selectorNotText => .access
  | .propertiesNotMapping => .access
  | .nameless => .access
  | .notLiteral => .value
  | .noOptions => .access
  | .noTarget => .access
  | .unknownToken => .value
  | .noChild => .position
  | .notIterable => .type
  | .badName => .value
  | .notNumeral => .value
  | .tooManyDigits => .value
  | .beyondFloats => .overflow
  | .badTemplate => .value
  | .noArgument => .position

end RuleTree
