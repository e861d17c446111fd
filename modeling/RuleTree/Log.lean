import RuleTree.Datum

/-!
# The log

What is recorded while style sheets are built.

* `LogEvent`: the events;
* `LogRecord`: an event with the selector or the host that it is about, as both looked when it took
  place;
* `LogRecord.message`: a record in words.

An event comes before the generator that it announces is run.
-/

namespace RuleTree

/-- What is recorded. -/
inductive LogEvent
  /-- a new rule set is about to be filled -/
  | generating
  /-- a rule set is about to be filled again -/
  | resetting
  /-- the style sheet of a host is about to be reset -/
  | resettingSheet
  /-- a host is about to get a style sheet -/
  | buildingSheet
  /-- the style sheet of a host is about to be forgotten -/
  | releasingSheet
  deriving DecidableEq

/-- Whether an event is about a host's style sheet rather than about a rule set. -/
def LogEvent.isAboutHost : LogEvent → Bool
  | generating => false
  | resetting => false
  | resettingSheet => true
  | buildingSheet => true
  | releasingSheet => true

/-- An event in words, before the label of what it is about. -/
def LogEvent.opening : LogEvent → String
  | generating => "Generating rules for "
  | resetting => "Resetting rules for "
  | resettingSheet => "Resetting style sheet for "
  | buildingSheet => "Building style sheet for "
  | releasingSheet => "Releasing style sheet for "

/-- A record of the log. -/
structure LogRecord where
  event : LogEvent
  subject : Datum
  label : String

/-- The message of a record. -/
def LogRecord.message (r : LogRecord) : String := r.event.opening ++ r.label

end RuleTree
