/-!
# Identities

The objects that data can refer to, known by number or by name and by nothing else.

* `NodeId`, `HostId`, `OptionsId`, `RegistryId`: rule sets, hosts, option sets and registries, by
  their place in the order of creation;
* `Stamp`: what tells objects apart that are otherwise alike;
* `Generator`: named in the script, or written in place;
* `Identity`: an object that can be referred to weakly.
-/

namespace RuleTree

/-- A rule set, by its place in the order of creation. -/
abbrev NodeId := Nat

/-- A host, by its place in the order of creation. -/
abbrev HostId := Nat

/-- A set of options, by its place in the order of creation. -/
abbrev OptionsId := Nat

/-- A registry, by its place in the order of creation. -/
abbrev RegistryId := Nat

/-- A number that is given to one object only. -/
abbrev Stamp := Nat

/-- A generator. One written in place is a new object each time its statement runs. -/
inductive Generator
  | named (name : String)
  | inline (id : Nat)
  deriving DecidableEq

/-- The name of a generator. -/
def Generator.name : Generator → String
  | named name => name
  | inline _ => "inline"

/-- An object that can be referred to weakly: a host, a generator, a rule set, or a kind or naming
rule that a statement made. -/
inductive Identity
  | host (id : HostId)
  | generator (g : Generator)
  | node (id : NodeId)
  | made (stamp : Stamp)
  deriving DecidableEq

end RuleTree
