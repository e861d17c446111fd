import RuleTree.Call
import RuleTree.Log
import RuleTree.Registry
import RuleTree.Result
import RuleTree.Store.Appearance
import RuleTree.Store.Iteration

/-!
# Sessions

Everything that running statements act on.

* `Host`: a host's name and kind, what it is equal to, and whether it has a hash;
* `Session`: the store, the objects of the script, the calls in progress, the trace, and the log if
  one is kept;
* `Session.equal`: when two objects are equal;
* `Session.makeHost`, `Session.makeRegistry`: new objects that go by a name;
* `Session.appearance`, `Session.views`: how objects look at the moment, and what is told of them;
* `Session.record`: a record added to the log if one is kept;
* `Session.callable`, `Session.kindName?`: the values that can be run as generators, and those that
  are kinds of element;
* `Session.withRegistry`: a registry by name.

One registry is there from the start. It goes by the default name until another one takes that name,
and style sheets that are created without naming a registry use it for ever.
-/

namespace RuleTree

/-- A host. -/
structure Host where
  name : String
  kind : HostKind Datum
  /-- the first host that this one is equal to; a host may be equal to none, not even itself -/
  like : Option HostId
  /-- whether the host has a hash, without which it gets no style sheet and is no dictionary key -/
  hasHash : Bool

/-- What statements act on. -/
structure Session where
  store : Store
  generators : Table (List Stmt)
  /-- the bodies of the generators written in place -/
  bodies : Array (List Stmt)
  /-- the next number that tells objects apart -/
  stamps : Stamp
  hosts : Array Host
  hostNames : Table HostId
  registries : Array Registry
  registryNames : Table RegistryId
  iterations : Table Iteration
  handles : Table NodeId
  saved : Table Datum
  calls : List Call
  trace : Array TraceEntry
  log : Option (Array LogRecord)

/-- The registry that is there from the start. -/
def firstRegistry : RegistryId := 0

namespace Session

/-- The session in which nothing has happened yet. The first two stamps are those of the naming rule
and of the sample kind that every session has. -/
def start (generators : Table (List Stmt)) (logs : Bool) : Session where
  store := .empty
  generators := generators
  bodies := #[]
  stamps := 2
  hosts := #[]
  hostNames := .empty
  registries := #[[]]
  registryNames := .ofList [(defaultRegistry, firstRegistry)]
  iterations := .empty
  handles := .empty
  saved := .empty
  calls := []
  trace := #[]
  log := if logs then some #[] else none

/-! ### Hosts -/

/-- The kind of a host; hosts that were never made are plain. -/
def hostKind (σ : Session) (h : HostId) : HostKind Datum := (σ.hosts[h]?.map Host.kind).getD .plain

/-- The name of a host. -/
def hostName (σ : Session) (h : HostId) : String := (σ.hosts[h]?.map Host.name).getD ""

/-- An object, or for hosts that are equal by their keys the first of them. A host whose key is not
even equal to itself has none to stand for it. -/
def standing (σ : Session) : Identity → Option Identity
  | .host h => ((σ.hosts[h]?.map Host.like).getD (some h)).map .host
  | i => some i

/-- Whether two objects are equal: the same, or hosts made equal by their keys. -/
def equal (σ : Session) (i j : Identity) : Bool :=
  (σ.standing i).any fun s => σ.standing j == some s

/-- Whether an object has a hash. -/
def hasHash (σ : Session) : Identity → Bool
  | .host h => (σ.hosts[h]?.map Host.hasHash).getD true
  | _ => true

/-- Whether a host would have a hash: one that is told apart by a key has the hash of that key. -/
def kindHasHash (σ : Session) : HostKind Datum → Bool
  | .equal key => key.isKey σ.hasHash
  | .unhashable => false
  | _ => true

/-- The first host that is told apart by a given key. -/
def hostOfKey? (σ : Session) (key : Datum) : Option HostId :=
  σ.hosts.findIdx? fun host =>
    match host.kind with
    | .equal k => k.equals σ.equal key
    | _ => false

/-- Make a host, in the place of one that goes by the same name. -/
def makeHost (σ : Session) (name : String) (kind : HostKind Datum) : Session :=
  let next := σ.hosts.size
  let like := match kind with
    | .equal key =>
      if key.equals σ.equal key then some ((σ.hostOfKey? key).getD next) else none
    | _ => some next
  { σ with
    hosts := σ.hosts.push ⟨name, kind, like, σ.kindHasHash kind⟩
    hostNames := σ.hostNames.insert name next }

/-! ### Looks -/

/-- How objects look at the moment. -/
def appearance (σ : Session) : Appearance := σ.store.appearance σ.hostName

/-- What is told of objects. -/
def views (σ : Session) : Views := σ.store.views σ.hostName

/-- Add a record to the log if one is kept. What it is about is shown at once, which may fail. -/
def record (σ : Session) (event : LogEvent) (subject : Datum) : Except Error Session :=
  match σ.log with
  | none => .ok σ
  | some records => (subject.label σ.appearance).map fun label =>
    { σ with log := some (records.push ⟨event, subject, label⟩) }

/-! ### Generators and registries -/

/-- The statements of a generator. -/
def bodyOf (σ : Session) : Generator → List Stmt
  | .named name => (σ.generators.find? name).getD []
  | .inline id => σ.bodies[id]?.getD []

/-- Whether a value can be called as a generator. -/
def callable (σ : Session) : Datum → Bool
  | .generator _ => true
  | .host h => (σ.hostKind h).isCallable
  | .kind _ _ => true
  | .naming _ _ => true
  | _ => false

/-- The name of a kind of element. Hosts that are called without effect are kinds as well. -/
def kindName? (σ : Session) : Datum → Option String
  | .kind name _ => some name
  | .host h =>
    match σ.hostKind h with
    | .empty => some (σ.hostName h)
    | _ => none
  | _ => none

/-- Make an empty registry, in the place of one that goes by the same name. -/
def makeRegistry (σ : Session) (name : String) : Session × RegistryId :=
  let next := σ.registries.size
  ({ σ with
    registries := σ.registries.push []
    registryNames := σ.registryNames.insert name next }, next)

/-- The registry of a given name, which is made if it is not there. -/
def withRegistry (σ : Session) (name : String) : Session × RegistryId :=
  match σ.registryNames.find? name with
  | some id => (σ, id)
  | none => σ.makeRegistry name

theorem store_of_record {σ σ' : Session} {event : LogEvent} {subject : Datum}
    (h : σ.record event subject = .ok σ') : σ'.store = σ.store := by
  unfold record at h
  split at h
  · cases h
    rfl
  · cases hl : subject.label σ.appearance with
    | error e => rw [hl] at h; cases h
    | ok label => rw [hl] at h; cases h; rfl

end Session

end RuleTree
