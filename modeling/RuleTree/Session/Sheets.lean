import RuleTree.Session.Build
import RuleTree.Session.Liveness

/-!
# The style sheets of hosts

* `Session.asHost`: the object that a value is as a host, if it can be one;
* `Session.sheet?`, `Session.putSheet`, `Session.eraseSheet`: the style sheet kept for a host;
* `Session.obtain`: reset the style sheet of a host, or build one;
* `Session.createWith`, `Session.create`: the text of a style sheet, with or without a host;
* `Session.lookup`, `Session.release`, `Session.containsHost`, `Session.registryLabel`: the other
  uses of a registry.

A style sheet is looked up before its generator runs, and kept only once a new one is through.
-/

namespace RuleTree

namespace Session

/-- The object that a value is as a host: one that can be referred to weakly and that has a hash.
What a statement told can be referred to, but has no hash. -/
def asHost (σ : Session) (host : Datum) : Except Error Identity :=
  match host with
  | .answer _ => .error .notHashable
  | host =>
    match host.identity? with
    | none => .error .notReferable
    | some i => if σ.hasHash i then .ok i else .error .notHashable

/-- The style sheet of a host. -/
def sheet? (σ : Session) (registry : RegistryId) (host : Identity) : Option NodeId :=
  (σ.entries registry).find? fun i => σ.equal i host

/-- Replace the entries of a registry. -/
def setEntries (σ : Session) (registry : RegistryId) (entries : Registry) : Session :=
  { σ with registries := σ.registries.setIfInBounds registry entries }

/-- Keep the style sheet of a host. -/
def putSheet (σ : Session) (registry : RegistryId) (host : Identity) (sheet : NodeId) : Session :=
  σ.setEntries registry ((σ.entries registry).put (fun i => σ.equal i host) host sheet)

/-- Forget the style sheet of a host. -/
def eraseSheet (σ : Session) (registry : RegistryId) (host : Identity) : Session :=
  σ.setEntries registry ((σ.entries registry).erase fun i => σ.equal i host)

/-- Reset the style sheet of a host, or build one. Only a new sheet looks at the options. -/
def obtain (σ : Session) (registry : RegistryId) (host generator : Datum) (options : Table Datum)
    (output : Output) : Start :=
  if hasAny options [hostOption, "generate", "self"] then .refuse σ .badArguments
  else if σ.callable generator then
    match σ.asHost host with
    | .error e => .refuse σ e
    | .ok i =>
      match σ.sheet? registry i with
      | some sheet =>
        match σ.record .resettingSheet host with
        | .error e => .refuse σ e
        | .ok σ => σ.reset sheet (some registry) output generator
      | none =>
        match σ.record .buildingSheet host with
        | .error e => .refuse σ e
        | .ok σ =>
          if options.contains "selector" then .refuse σ .badArguments
          else σ.buildRoot (.text Combinator.root.token) host generator options
            fun n => .register registry i n output
  else .refuse σ .missingGenerator

/-- What creating the text of a style sheet comes to, given the host if there is one, and one or two
further arguments. -/
def createWith (σ : Session) (host first second : Datum) (options : Table Datum) : Start :=
  if !host.isNull then
    if second.isNull then σ.obtain firstRegistry host first options .css
    else .refuse σ .hostTwice
  else if !second.isNull then σ.obtain firstRegistry first second options .css
  else if σ.callable first then
    σ.build (.text Combinator.root.token) first none options .css
  else .refuse σ .missingGenerator

/-- Create the text of a style sheet. One positional argument is the generator, of a sheet without
host or for the host given by itself; two are host and generator. -/
def create (σ : Session) (arguments : List Datum) (host : Datum) (options : Table Datum) : Start :=
  if !host.isNull && options.contains hostOption then .refuse σ .badArguments
  else
    let host := if host.isNull then (options.find? hostOption).getD .null else host
    let options := options.erase hostOption
    match arguments with
    | [first] => σ.createWith host first .null options
    | [first, second] => σ.createWith host first second options
    | _ => .refuse σ .badArguments

/-- Look up the style sheet of a host. -/
def lookup (σ : Session) (registry : RegistryId) (host : Datum) : Except Error Result :=
  (σ.asHost host).map fun i => .node? (σ.sheet? registry i)

/-- Forget the style sheet of a host. In an empty registry there is nothing to look for, and so no
need for a hash. -/
def release (σ : Session) (registry : RegistryId) (host : Datum) : Start :=
  match σ.record .releasingSheet host with
  | .error e => .refuse σ e
  | .ok σ =>
    match σ.asHost host with
    | .error .notHashable =>
      if (σ.entries registry).isEmpty then .answer σ (.ok .nothing) else .refuse σ .notHashable
    | .error e => .refuse σ e
    | .ok i => .done (σ.eraseSheet registry i) (.ok (.node? (σ.sheet? registry i)))

/-- Whether a host has a style sheet. A value that cannot be referred to has none. -/
def containsHost (σ : Session) (registry : RegistryId) (host : Datum) : Except Error Result :=
  match σ.asHost host with
  | .ok i => .ok (.bool (σ.sheet? registry i).isSome)
  | .error .notReferable => .ok (.bool false)
  | .error e => .error e

/-- A registry as diagnostics show it. -/
def registryLabel (σ : Session) (registry : RegistryId) : String :=
  "StyleSheetRegistry(hosts=" ++ toString (σ.entries registry).length ++ ")"

end Session

end RuleTree
