import RuleTree.Outcome
import RuleTree.Proofs.Blocks.Awaiting
import RuleTree.Proofs.Blocks.Declarations
import RuleTree.Proofs.Blocks.Decoding
import RuleTree.Proofs.Blocks.Hyphens
import RuleTree.Proofs.Creating.Anywhere
import RuleTree.Proofs.Failure.Lost
import RuleTree.Proofs.Failure.Refused
import RuleTree.Proofs.History.Contents
import RuleTree.Proofs.Iteration.Lazy
import RuleTree.Proofs.Lifetime.Parents
import RuleTree.Proofs.Logging.InOrder
import RuleTree.Proofs.Options.Filled
import RuleTree.Proofs.Options.Shared
import RuleTree.Proofs.Rebuilding.Cleared
import RuleTree.Proofs.Rebuilding.Nested
import RuleTree.Proofs.Rebuilding.Prefixed
import RuleTree.Proofs.Rebuilding.Rendered
import RuleTree.Proofs.References.Grounded
import RuleTree.Proofs.Scopes.Unread
import RuleTree.Proofs.Selecting.Applied
import RuleTree.Proofs.Selecting.Catalog
import RuleTree.Proofs.Selecting.Completeness
import RuleTree.Proofs.Sheets.Sound
import RuleTree.Proofs.Siblings.Exchanged
import RuleTree.Proofs.Tree.Visibility
import RuleTree.Session.Alone
