import RuleTree.Identity

/-!
# Registries

The style sheets kept for hosts, in the order in which the hosts first got one.

* `Entry`, `Registry`: a host with its sheet, and a list of these;
* `Registry.find?`, `Registry.put`, `Registry.erase`: look up, keep and forget the sheet of the
  hosts that a test accepts.

Which hosts count as the same, and which are still alive, is for the caller to say.
-/

namespace RuleTree

/-- A host and its style sheet. -/
structure Entry where
  host : Identity
  sheet : NodeId

/-- The style sheets of hosts. -/
abbrev Registry := List Entry

namespace Registry

/-- The sheet of the first host that the test accepts. -/
def find? (r : Registry) (isHost : Identity → Bool) : Option NodeId :=
  (List.find? (fun e => isHost e.host) r).map Entry.sheet

/-- Keep the sheet of a host: for the first host that the test accepts, which stays in its place, or
else at the end. -/
def put (isHost : Identity → Bool) (host : Identity) (sheet : NodeId) : Registry → Registry
  | [] => [⟨host, sheet⟩]
  | e :: rest => if isHost e.host then { e with sheet } :: rest else e :: put isHost host sheet rest

/-- Forget the first host that the test accepts. -/
def erase (isHost : Identity → Bool) : Registry → Registry
  | [] => []
  | e :: rest => if isHost e.host then rest else e :: erase isHost rest

end Registry

end RuleTree
