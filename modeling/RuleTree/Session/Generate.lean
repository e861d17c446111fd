import RuleTree.Session.Eval

/-!
# Running generators

Every statement is either done at once or waits for a body of statements to end.

* `Start`: the two ways to begin, or to go on;
* `Applied`, `Session.apply`: what calling a value comes to: it gives a value at once, or there is a
  body to run;
* `Session.launch`: run a generator on a rule set;
* `Session.fill`: run one on a rule set that was only just made;
* `Session.reset`: run one on a rule set again;
* `Session.fill_of_ok`, `Session.reset_of_ok` and the like: what these come to, by what becomes of
  the record in the log.

What is called as a generator need not be one of the script's: a host or a kind can be called too,
and has its effect, or fails, at once.
-/

namespace RuleTree

/-- How a statement begins or goes on: it is done at once, or it waits for a body. -/
inductive Start
  | done (session : Session) (result : Except Error Result)
  | enter (session : Session) (purpose : Purpose) (body : List Stmt)

namespace Start

/-- Done, with the session as it was. -/
def answer (σ : Session) (r : Except Error Result) : Start := done σ r

/-- Refused, with the session as it was. -/
def refuse (σ : Session) (e : Error) : Start := done σ (.error e)

end Start

/-- What calling a value comes to. A body that is run gives nothing. -/
inductive Applied
  | gives (session : Session) (value : Datum)
  | fails (e : Error)
  | runs (body : List Stmt)

namespace Session

/-- What a host that is called as a generator writes. -/
def hostText (σ : Session) (h : HostId) : String := "called: " ++ σ.hostName h ++ ";\n"

/-- Call a value on a subject. What a host that is a kind makes does nothing but refer to the host,
and the host stands for it. -/
def apply (σ : Session) (callee subject : Datum) : Applied :=
  match callee with
  | .generator g => .runs (σ.bodyOf g)
  | .host h =>
    match σ.hostKind h with
    | .callable =>
      match subject with
      | .node n =>
        match σ.store.write n (.text (σ.hostText h)) with
        | .ok store => .gives { σ with store } .null
        | .error e => .fails e
      | _ => .fails .noTarget
    | .empty => .gives σ callee
    | _ => .fails .notCallable
  | .naming rule _ =>
    match className rule (σ.kindName? subject) σ with
    | .ok (d, σ) => .gives σ d
    | .error e => .fails e
  | .kind _ _ => .fails .badArguments
  | _ => .fails .notCallable

/-- Run a generator on a rule set. One that is not a list of statements has its effect at once, and
leaves an empty body. -/
def launch (σ : Session) (purpose : Purpose) (generator : Datum) (n : NodeId) : Start :=
  match σ.apply generator (.node n) with
  | .gives σ _ => .enter σ purpose []
  | .fails e => .refuse σ e
  | .runs body => .enter σ purpose body

/-- Run a generator on a rule set that the store was just extended by. -/
def fill (σ : Session) (store : Store) (n : NodeId) (purpose : Purpose) (generator : Datum) :
    Start :=
  let σ := { σ with store }
  match σ.record .generating (store.get n).selector with
  | .error e => .refuse σ e
  | .ok σ => σ.launch purpose generator n

theorem fill_of_error {σ : Session} {store : Store} {n : NodeId} {e : Error}
    (h : ({ σ with store } : Session).record .generating (store.get n).selector = .error e)
    (purpose : Purpose) (generator : Datum) :
    σ.fill store n purpose generator = .refuse { σ with store } e := by
  unfold fill
  simp only [h]

theorem fill_of_ok {σ σ₁ : Session} {store : Store} {n : NodeId}
    (h : ({ σ with store } : Session).record .generating (store.get n).selector = .ok σ₁)
    (purpose : Purpose) (generator : Datum) :
    σ.fill store n purpose generator = σ₁.launch purpose generator n := by
  unfold fill
  simp only [h]

/-- Run a generator on a rule set again, after emptying it if its tree says so. -/
def reset (σ : Session) (n : NodeId) (registry : Option RegistryId) (output : Output)
    (generator : Datum) : Start :=
  if σ.callable generator then
    let σ := { σ with store := σ.store.clearForReset n }
    match σ.record .resetting (σ.store.get n).selector with
    | .error e => .refuse σ e
    | .ok σ => σ.launch (.reset n registry output) generator n
  else .refuse σ .missingGenerator

theorem reset_of_error {σ : Session} {n : NodeId} {generator : Datum} {e : Error}
    (hg : σ.callable generator = true)
    (h : ({ σ with store := σ.store.clearForReset n } : Session).record .resetting
      ((σ.store.clearForReset n).get n).selector = .error e)
    (registry : Option RegistryId) (output : Output) :
    σ.reset n registry output generator =
      .refuse { σ with store := σ.store.clearForReset n } e := by
  unfold reset
  simp only [if_pos hg, h]

theorem reset_of_ok {σ σ₁ : Session} {n : NodeId} {generator : Datum}
    (hg : σ.callable generator = true)
    (h : ({ σ with store := σ.store.clearForReset n } : Session).record .resetting
      ((σ.store.clearForReset n).get n).selector = .ok σ₁)
    (registry : Option RegistryId) (output : Output) :
    σ.reset n registry output generator = σ₁.launch (.reset n registry output) generator n := by
  unfold reset
  simp only [if_pos hg, h]

end Session

end RuleTree
