import RuleTree.Selector.Shortcut

/-!
# The catalog of shortcuts

* `catalog`: every named pseudo-class and pseudo-element, in order;
* `catalogEntry?`: the entry with a given name.
-/

namespace RuleTree

/-- The shortcuts. -/
def catalog : List Shortcut := [
  ⟨"active", .pseudoClass, "active", .none⟩,
  ⟨"after", .pseudoElement, "after", .none⟩,
  ⟨"any_link", .pseudoClass, "any-link", .none⟩,
  ⟨"backdrop", .pseudoElement, "backdrop", .none⟩,
  ⟨"before", .pseudoElement, "before", .none⟩,
  ⟨"blank", .pseudoClass, "blank", .none⟩,
  ⟨"checked", .pseudoClass, "checked", .none⟩,
  ⟨"cue", .pseudoElement, "cue", .none⟩,
  ⟨"cue_region", .pseudoElement, "cue-region", .none⟩,
  ⟨"current_timed", .pseudoClass, "current(\x7b\x7d)", .selectors⟩,
  ⟨"default", .pseudoClass, "default", .none⟩,
  ⟨"defined", .pseudoClass, "defined", .none⟩,
  ⟨"dir", .pseudoClass, "dir(\x7b\x7d)", .value⟩,
  ⟨"disabled", .pseudoClass, "disabled", .none⟩,
  ⟨"empty", .pseudoClass, "empty", .none⟩,
  ⟨"enabled", .pseudoClass, "enabled", .none⟩,
  ⟨"file_selector_button", .pseudoElement, "file-selector-button", .none⟩,
  ⟨"first_letter", .pseudoElement, "first-letter", .none⟩,
  ⟨"first_line", .pseudoElement, "first-line", .none⟩,
  ⟨"first_page", .pseudoClass, "first", .none⟩,
  ⟨"first_child", .pseudoClass, "first-child", .none⟩,
  ⟨"first_of_type", .pseudoClass, "first-of-type", .none⟩,
  ⟨"focus", .pseudoClass, "focus", .none⟩,
  ⟨"focus_visible", .pseudoClass, "focus-visible", .none⟩,
  ⟨"focus_within", .pseudoClass, "focus-within", .none⟩,
  ⟨"fullscreen", .pseudoClass, "fullscreen", .none⟩,
  ⟨"future_timed", .pseudoClass, "future(\x7b\x7d)", .selectors⟩,
  ⟨"grammar_error", .pseudoElement, "grammar-error", .none⟩,
  ⟨"has", .pseudoClass, "has(\x7b\x7d)", .selectors⟩,
  ⟨"host", .pseudoClass, "host", .none⟩,
  ⟨"host_context", .pseudoClass, "host-context(\x7b\x7d)", .selectors⟩,
  ⟨"host_is", .pseudoClass, "host(\x7b\x7d)", .selectors⟩,
  ⟨"hover", .pseudoClass, "hover", .none⟩,
  ⟨"indeterminate", .pseudoClass, "indeterminate", .none⟩,
  ⟨"in_range", .pseudoClass, "in-range", .none⟩,
  ⟨"invalid", .pseudoClass, "invalid", .none⟩,
  ⟨"is", .pseudoClass, "is(\x7b\x7d)", .selectors⟩,
  ⟨"lang", .pseudoClass, "lang(\x7b\x7d)", .value⟩,
  ⟨"last_child", .pseudoClass, "last-child", .none⟩,
  ⟨"last_of_type", .pseudoClass, "last-of-type", .none⟩,
  ⟨"left_hand_page", .pseudoClass, "left", .none⟩,
  ⟨"link", .pseudoClass, "link", .none⟩,
  ⟨"local_link", .pseudoClass, "local-link", .none⟩,
  ⟨"marker", .pseudoElement, "marker", .none⟩,
  ⟨"not", .pseudoClass, "not(\x7b\x7d)", .selectors⟩,
  ⟨"nth_child", .pseudoClass, "nth-child(\x7b\x7d)", .value⟩,
  ⟨"nth_column", .pseudoClass, "nth-col(\x7b\x7d)", .value⟩,
  ⟨"nth_of_type", .pseudoClass, "nth-of-type(\x7b\x7d)", .value⟩,
  ⟨"nth_last_child", .pseudoClass, "nth-last-child(\x7b\x7d)", .value⟩,
  ⟨"nth_last_column", .pseudoClass, "nth-last-col(\x7b\x7d)", .value⟩,
  ⟨"nth_last_of_type", .pseudoClass, "nth-last-of-type(\x7b\x7d)", .value⟩,
  ⟨"only_child", .pseudoClass, "only-child", .none⟩,
  ⟨"only_of_type", .pseudoClass, "only-of-type", .none⟩,
  ⟨"optional", .pseudoClass, "optional", .none⟩,
  ⟨"out_of_range", .pseudoClass, "out-of-range", .none⟩,
  ⟨"part", .pseudoElement, "part(\x7b\x7d)", .value⟩,
  ⟨"past_timed", .pseudoClass, "past", .none⟩,
  ⟨"paused", .pseudoClass, "paused", .none⟩,
  ⟨"picture_in_picture", .pseudoClass, "picture-in-picture", .none⟩,
  ⟨"placeholder", .pseudoElement, "placeholder", .none⟩,
  ⟨"placeholder_shown", .pseudoClass, "placeholder-shown", .none⟩,
  ⟨"playing", .pseudoClass, "playing", .none⟩,
  ⟨"read_only", .pseudoClass, "read-only", .none⟩,
  ⟨"read_write", .pseudoClass, "read-write", .none⟩,
  ⟨"required", .pseudoClass, "required", .none⟩,
  ⟨"right_hand_page", .pseudoClass, "right", .none⟩,
  ⟨"root", .pseudoClass, "root", .none⟩,
  ⟨"selection", .pseudoElement, "selection", .none⟩,
  ⟨"slotted", .pseudoElement, "slotted(\x7b\x7d)", .selectors⟩,
  ⟨"scope", .pseudoClass, "scope", .none⟩,
  ⟨"spelling_error", .pseudoElement, "spelling-error", .none⟩,
  ⟨"state", .pseudoClass, "state(\x7b\x7d)", .value⟩,
  ⟨"target", .pseudoClass, "target", .none⟩,
  ⟨"target_within", .pseudoClass, "target-within", .none⟩,
  ⟨"user_invalid", .pseudoClass, "user-invalid", .none⟩,
  ⟨"valid", .pseudoClass, "valid", .none⟩,
  ⟨"visited", .pseudoClass, "visited", .none⟩,
  ⟨"where", .pseudoClass, "where(\x7b\x7d)", .selectors⟩]

/-- The shortcut with a given name. -/
def catalogEntry? (name : String) : Option Shortcut := catalog.find? fun s => s.name = name

end RuleTree
