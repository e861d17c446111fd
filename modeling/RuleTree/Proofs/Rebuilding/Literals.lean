import RuleTree.Proofs.Rebuilding.Alike
import RuleTree.Proofs.History.Frame

/-!
# Literal arguments

* `Datum.literal`: a value without hosts, rule sets, naming rules and generators;
* `Session.Eval.Fixed`: a computation that comes to the same in every session, but that it counts
  its numbers from the next one of the session;
* `Session.eval_fixed`: a literal expression is worked out so;
* `Session.eval_literal`: in any two sessions it fails with the same error, or has values that are
  alike.
-/

namespace RuleTree

namespace Datum

mutual

/-- A value put together of plain ones and of kinds of element. -/
def literal : Datum → Bool
  | .null | .bool _ | .int _ | .float _ _ | .text _ | .kind _ _ => true
  | .list items => literals items
  | .dict entries => literalEntries entries
  | .naming _ _ | .host _ | .generator _ | .node _ | .nodes _ | .answer _ => false

/-- Values all of which are literal. -/
def literals : List Datum → Bool
  | [] => true
  | d :: rest => d.literal && literals rest

/-- Entries with literal keys and values. -/
def literalEntries : List (Datum × Datum) → Bool
  | [] => true
  | (k, v) :: rest => k.literal && v.literal && literalEntries rest

end

variable {f : Stamp → Stamp} {g : Nat → Nat}

mutual

theorem literal_renumber : (d : Datum) → (d.renumber f g).literal = d.literal
  | .list items => by rw [renumber, literal, literal, literals_renumber items]
  | .dict entries => by rw [renumber, literal, literal, literalEntries_renumber entries]
  | .null | .bool _ | .int _ | .float _ _ | .text _ | .kind _ _ | .naming _ _ | .host _ => rfl
  | .generator _ | .node _ | .nodes _ | .answer _ => rfl

theorem literals_renumber : (items : List Datum) →
    literals (renumberItems f g items) = literals items
  | [] => rfl
  | d :: rest => by rw [renumberItems, literals, literals, literal_renumber d, literals_renumber rest]

theorem literalEntries_renumber : (entries : List (Datum × Datum)) →
    literalEntries (renumberEntries f g entries) = literalEntries entries
  | [] => rfl
  | (k, v) :: rest => by
    rw [renumberEntries, literalEntries, literalEntries, literal_renumber k, literal_renumber v,
      literalEntries_renumber rest]

end

mutual

/-- The only objects in a literal value are the kinds of element that were made for it. -/
theorem made_of_literal {i : Identity} : (d : Datum) → d.literal = true → i ∈ d.identities →
    ∃ stamp, i = .made stamp
  | .list items, h, hi => made_of_literals items h hi
  | .dict entries, h, hi => made_of_literalEntries entries h hi
  | .kind _ stamp, _, hi => ⟨stamp, List.mem_singleton.1 hi⟩
  | .null, _, hi | .bool _, _, hi | .int _, _, hi | .float _ _, _, hi | .text _, _, hi => by cases hi

theorem made_of_literals {i : Identity} : (items : List Datum) → literals items = true →
    i ∈ itemIdentities items → ∃ stamp, i = .made stamp
  | d :: rest, h, hi => by
    obtain ⟨hd, hr⟩ := Bool.and_eq_true_iff.1 h
    exact (List.mem_append.1 hi).elim (made_of_literal d hd) (made_of_literals rest hr)

theorem made_of_literalEntries {i : Identity} : (entries : List (Datum × Datum)) →
    literalEntries entries = true → i ∈ entryIdentities entries → ∃ stamp, i = .made stamp
  | (k, v) :: rest, h, hi => by
    obtain ⟨hkv, hr⟩ := Bool.and_eq_true_iff.1 h
    obtain ⟨hk, hv⟩ := Bool.and_eq_true_iff.1 hkv
    rcases List.mem_append.1 hi with hi | hi
    · exact (List.mem_append.1 hi).elim (made_of_literal k hk) (made_of_literal v hv)
    · exact made_of_literalEntries rest hr hi

end

theorem detached_of_literal {d : Datum} (h : d.literal = true) : d.Detached := by
  intro i hi n
  obtain ⟨stamp, rfl⟩ := made_of_literal d h hi
  exact ⟨nofun, nofun⟩

/-! ### Dictionaries -/

/-- A value whose numbers are counted from a base. -/
def shift (base : Stamp) (d : Datum) : Datum := d.renumber (base + ·) id

theorem toInt?_renumber (d : Datum) : (d.renumber f g).toInt? = d.toInt? := by
  cases d <;> rfl

/-- Keys that are literal are the same key or not, whatever the base of their numbers, and whatever
hosts are equal. -/
theorem sameKey_shift {a b : Datum} (ha : a.literal = true) (hb : b.literal = true) (σ : Session)
    (base : Stamp) :
    sameKey σ.equal (a.shift base) (b.shift base) = sameKey (fun i j => i == j) a b := by
  have number (s t : Stamp) : (base + s == base + t) = (s == t) := by
    rw [Bool.eq_iff_iff, beq_iff_eq, beq_iff_eq]
    exact Nat.add_left_cancel_iff
  have same (s t : Stamp) :
      (Identity.made (base + s) == .made (base + t)) = (Identity.made s == .made t) := by
    rw [Bool.eq_iff_iff, beq_iff_eq, beq_iff_eq, Identity.made.injEq, Identity.made.injEq]
    exact Nat.add_left_cancel_iff
  have made (s t : Stamp) :
      σ.equal (.made (base + s)) (.made (base + t)) = (Identity.made s == .made t) := by
    rw [← same]
    show (some (Identity.made (base + t)) == some (.made (base + s))) = _
    rw [Bool.eq_iff_iff, beq_iff_eq, beq_iff_eq, Option.some_inj]
    exact eq_comm
  have object : sameObject (a.shift base) (b.shift base) = sameObject a b := by
    cases a with
    | float x s =>
      cases b with
      | float y t => exact number s t
      | _ => rfl
    | kind name s =>
      cases b with
      | kind name' t => exact same s t
      | naming | host | generator | node | nodes | answer => cases hb
      | _ => rfl
    | naming | host | generator | node | nodes | answer => cases ha
    | _ => cases b <;> rfl
  have equal : equals σ.equal (a.shift base) (b.shift base) = equals (fun i j => i == j) a b := by
    unfold equals
    rw [show (a.shift base).toInt? = a.toInt? from toInt?_renumber a,
      show (b.shift base).toInt? = b.toInt? from toInt?_renumber b]
    generalize a.toInt? = x
    generalize b.toInt? = y
    cases x <;> cases y <;> try rfl
    cases a with
    | float x s =>
      cases b with
      | naming | host | generator | node | nodes | answer => cases hb
      | float y t => cases x <;> cases y <;> rfl
      | _ => cases x <;> rfl
    | kind name s =>
      cases b with
      | kind name' t => exact made s t
      | naming | host | generator | node | nodes | answer => cases hb
      | _ => rfl
    | naming | host | generator | node | nodes | answer => cases ha
    | _ =>
      cases b with
      | naming | host | generator | node | nodes | answer => cases hb
      | _ => rfl
  unfold sameKey
  rw [object, equal]

/-- Being the same dictionary, but for the base of the numbers. -/
def shiftEntries (base : Stamp) (entries : List (Datum × Datum)) : List (Datum × Datum) :=
  entries.map fun e => (e.1.shift base, e.2.shift base)

theorem insertEntry_shift {key : Datum} (hk : key.literal = true) (value : Datum)
    {entries : List (Datum × Datum)} (he : ∀ e ∈ entries, e.1.literal = true) (σ : Session)
    (base : Stamp) :
    insertEntry σ.equal (key.shift base) (value.shift base) (shiftEntries base entries) =
      shiftEntries base (insertEntry (fun i j => i == j) key value entries) := by
  induction entries with
  | nil => rfl
  | cons e rest ih =>
    obtain ⟨k, v⟩ := e
    have ih := ih fun e h => he e (List.mem_cons_of_mem _ h)
    show (if sameKey σ.equal (k.shift base) (key.shift base) then _ else _) = _
    rw [sameKey_shift (he (k, v) List.mem_cons_self) hk, insertEntry]
    split
    · rfl
    · show _ :: insertEntry _ _ _ (shiftEntries base rest) = _
      rw [ih]
      rfl

theorem literal_insertEntry {equal : Identity → Identity → Bool} {key value : Datum}
    {entries : List (Datum × Datum)} (hk : key.literal = true) (hv : value.literal = true)
    (he : ∀ e ∈ entries, e.1.literal = true ∧ e.2.literal = true) :
    ∀ e ∈ insertEntry equal key value entries, e.1.literal = true ∧ e.2.literal = true := by
  induction entries with
  | nil =>
    intro e h
    cases List.mem_singleton.1 h
    exact ⟨hk, hv⟩
  | cons x rest ih =>
    obtain ⟨k, v⟩ := x
    have hx := he (k, v) List.mem_cons_self
    intro e h
    unfold insertEntry at h
    split at h
    · rcases List.mem_cons.1 h with rfl | h
      · exact ⟨hx.1, hv⟩
      · exact he e (List.mem_cons_of_mem _ h)
    · rcases List.mem_cons.1 h with rfl | h
      · exact hx
      · exact ih (fun e h => he e (List.mem_cons_of_mem _ h)) e h

/-- A dictionary of literal pairs is the same, but for the base of the numbers. -/
theorem ofPairs_shift {pairs : List (Datum × Datum)}
    (hp : ∀ e ∈ pairs, e.1.literal = true ∧ e.2.literal = true) (σ : Session) (base : Stamp) :
    ofPairs σ.equal (shiftEntries base pairs) = (ofPairs (fun i j => i == j) pairs).shift base ∧
      (ofPairs (fun i j => i == j) pairs).literal = true := by
  have literal (entries : List (Datum × Datum))
      (h : ∀ e ∈ entries, e.1.literal = true ∧ e.2.literal = true) :
      literalEntries entries = true := by
    induction entries with
    | nil => rfl
    | cons e rest ih =>
      have he := h e List.mem_cons_self
      rw [literalEntries, he.1, he.2, ih fun e h' => h e (List.mem_cons_of_mem _ h')]
      rfl
  have key (pairs entries : List (Datum × Datum))
      (hp : ∀ e ∈ pairs, e.1.literal = true ∧ e.2.literal = true)
      (he : ∀ e ∈ entries, e.1.literal = true ∧ e.2.literal = true) :
      (shiftEntries base pairs).foldl (fun entries p => insertEntry σ.equal p.1 p.2 entries)
          (shiftEntries base entries) =
        shiftEntries base
          (pairs.foldl (fun entries p => insertEntry (fun i j => i == j) p.1 p.2 entries) entries) ∧
      literalEntries
        (pairs.foldl (fun entries p => insertEntry (fun i j => i == j) p.1 p.2 entries) entries) =
          true := by
    induction pairs generalizing entries with
    | nil => exact ⟨rfl, literal entries he⟩
    | cons p rest ih =>
      have hp' := hp p List.mem_cons_self
      have ih := ih (insertEntry (fun i j => i == j) p.1 p.2 entries)
        (fun e h => hp e (List.mem_cons_of_mem _ h)) (literal_insertEntry hp'.1 hp'.2 he)
      rw [← insertEntry_shift hp'.1 p.2 fun e h => (he e h).1] at ih
      exact ih
  obtain ⟨h₁, h₂⟩ := key pairs [] hp nofun
  refine ⟨?_, h₂⟩
  show dict _ = dict (renumberEntries _ _ _)
  rw [renumberEntries_eq_map]
  exact congrArg dict h₁

end Datum

/-! ### Computations -/

namespace Session

/-- A computation that, from wherever the numbers are counted, comes to the same from there on, and
changes nothing but the next number. -/
def Eval.Fixed {α : Type} (move : Stamp → α → α) (good : α → Prop) (c : Stamp → Eval α) : Prop :=
  ∀ used, ∃ out : Except Error (α × Stamp), (∀ p, out = .ok p → good p.1) ∧
    ∀ base σ, σ.stamps = base + used →
      c base σ = out.map fun p => (move base p.1, { σ with stamps := base + p.2 })

namespace Eval.Fixed

variable {α β : Type} {move : Stamp → α → α} {good : α → Prop} {move' : Stamp → β → β}
  {good' : β → Prop}

theorem pure {a : α} (h : good a) : Fixed move good fun base => Pure.pure (move base a) :=
  fun used => ⟨.ok (a, used), fun _ h' => by cases h'; exact h, fun base σ hs => by
    show Except.ok (move base a, σ) = .ok (move base a, { σ with stamps := base + used })
    rw [← hs]⟩

theorem throw (e : Error) : Fixed move good fun _ => (throw e : Eval α) :=
  fun _ => ⟨.error e, nofun, fun _ _ _ => rfl⟩

theorem bind {c : Stamp → Eval α} {f : Stamp → α → Eval β} (hc : Fixed move good c)
    (hf : ∀ a, good a → Fixed move' good' fun base => f base (move base a)) :
    Fixed move' good' fun base => c base >>= f base := by
  intro used
  obtain ⟨out, hgood, hout⟩ := hc used
  cases out with
  | error e =>
    refine ⟨.error e, nofun, fun base σ hs => ?_⟩
    show (c base σ).bind _ = _
    rw [hout base σ hs]
    rfl
  | ok p =>
    obtain ⟨out', hgood', hout'⟩ := hf p.1 (hgood p rfl) p.2
    refine ⟨out', hgood', fun base σ hs => ?_⟩
    show (c base σ).bind _ = _
    rw [hout base σ hs]
    exact hout' base { σ with stamps := base + p.2 } rfl

/-- A computation that involves no session is fixed. -/
theorem lift (r : Except Error α) :
    Fixed (fun _ a => a) (fun a => r = .ok a) fun _ => (liftM r : Eval α) := by
  intro used
  refine ⟨r.map fun a => (a, used), fun p hp => ?_, fun base σ hs => ?_⟩
  · cases r with
    | error e => cases hp
    | ok a =>
      cases hp
      rfl
  · cases r with
    | error e => rfl
    | ok a =>
      show Except.ok (a, σ) = .ok (a, { σ with stamps := base + used })
      rw [← hs]

/-- The computation that gives a literal value is fixed but for the base of its numbers. -/
theorem literal {d : Datum} (h : d.literal = true) :
    Fixed Datum.shift (fun d => d.literal = true) fun base => Pure.pure (d.shift base) := pure h

/-- The computation that gives a new number is fixed but for the base. -/
theorem newStamp : Fixed (fun base k => base + k) (fun _ => True) fun _ => Session.newStamp := by
  refine fun used => ⟨.ok (used, used + 1), fun _ _ => trivial, fun base σ hs => ?_⟩
  show Except.ok (σ.stamps, { σ with stamps := σ.stamps + 1 }) =
    .ok (base + used, { σ with stamps := base + used + 1 })
  rw [hs]

end Eval.Fixed

theorem requireKey_fixed {d : Datum} (h : d.literal = true) :
    Eval.Fixed (fun _ u => u) (fun _ => True) fun base => requireKey (d.shift base) := by
  have key (base : Stamp) (σ : Session) :
      (d.shift base).isKey σ.hasHash = d.isKey fun _ => true := by
    cases d with
    | naming | host | generator | node | nodes | answer => cases h
    | _ => rfl
  intro used
  refine ⟨if d.isKey fun _ => true then .ok ((), used) else .error .notHashable,
    fun _ _ => trivial, fun base σ hs => ?_⟩
  show (if !(d.shift base).isKey σ.hasHash then throw Error.notHashable else Pure.pure () :
    Eval Unit) σ = _
  rw [key]
  cases d.isKey fun _ => true with
  | false => rfl
  | true =>
    show Except.ok ((), σ) = .ok ((), { σ with stamps := base + used })
    rw [← hs]

mutual

/-- A literal expression is worked out alike in all sessions. -/
theorem eval_fixed : (e : Expr) → e.literal = true →
    Eval.Fixed Datum.shift (fun d => d.literal = true) fun _ => eval e
  | .null, _ => .literal (d := .null) rfl
  | .bool b, _ => .literal (d := .bool b) rfl
  | .int n, _ => .literal (d := .int n) rfl
  | .text s, _ => .literal (d := .text s) rfl
  | .integer digits, _ => by
    unfold eval
    exact .bind (.lift _) fun n _ => .literal (d := .int n) rfl
  | .decimal digits, _ => by
    unfold eval
    exact .bind (.lift _) fun x _ => .bind .newStamp fun k _ => .literal (d := .float x k) rfl
  | .kind name, _ => by
    have made : Eval.Fixed Datum.shift (fun d => d.literal = true)
        fun _ => newStamp >>= fun k => Pure.pure (.kind name k) :=
      .bind .newStamp fun k _ => .literal (d := .kind name k) rfl
    unfold eval newKind
    split
    · exact .bind (@Eval.Fixed.throw Unit (fun _ u => u) (fun _ => True) _) fun _ _ => made
    · exact made
  | .list items, h => by
    unfold eval
    refine .bind (evalItems_fixed items h) fun ds hds => ?_
    have move (base : Stamp) : Datum.list (ds.map (Datum.shift base)) = (Datum.list ds).shift base :=
      congrArg Datum.list (Datum.renumberItems_eq_map ds).symm
    simp only [move]
    exact .literal hds
  | .dict entries, h => by
    unfold eval
    refine .bind (evalEntries_fixed entries h) fun ds hds => ?_
    intro used
    refine ⟨.ok (.ofPairs (fun i j => i == j) ds, used), fun p hp => ?_, fun base σ hs => ?_⟩
    · cases hp
      exact (Datum.ofPairs_shift hds (.start .empty false) 0).2
    · show Except.ok (Datum.ofPairs σ.equal (Datum.shiftEntries base ds), σ) =
        .ok (Datum.shift base (.ofPairs (fun i j => i == j) ds), { σ with stamps := base + used })
      rw [(Datum.ofPairs_shift hds σ base).1, ← hs]
  | .concat parts, h => by
    unfold eval
    refine .bind (evalItems_fixed parts h) fun ds hds => ?_
    have texts (base : Stamp) :
        ((ds.map (Datum.shift base)).mapM textOf : Except Error (List String)) = ds.mapM textOf := by
      rw [List.mapM_map]
      congr 1
      funext d
      cases d <;> rfl
    simp only [texts]
    exact .bind (.lift _) fun ts _ => .literal (d := .text (String.join ts)) rfl

theorem evalItems_fixed : (es : List Expr) → Expr.literals es = true →
    Eval.Fixed (fun base => List.map (Datum.shift base)) (fun ds => Datum.literals ds = true)
      fun _ => evalItems es
  | [], _ => .pure (a := []) rfl
  | e :: rest, h => by
    obtain ⟨he, hr⟩ := Bool.and_eq_true_iff.1 h
    unfold evalItems
    refine .bind (eval_fixed e he) fun d hd => .bind (evalItems_fixed rest hr) fun ds hds => ?_
    exact .pure (a := d :: ds) (Bool.and_eq_true_iff.2 ⟨hd, hds⟩)

theorem evalEntries_fixed : (es : List (Expr × Expr)) → Expr.literalEntries es = true →
    Eval.Fixed Datum.shiftEntries (fun ds => ∀ e ∈ ds, e.1.literal = true ∧ e.2.literal = true)
      fun _ => evalEntries es
  | [], _ => .pure (a := []) nofun
  | (k, v) :: rest, h => by
    obtain ⟨hkv, hr⟩ := Bool.and_eq_true_iff.1 h
    obtain ⟨hk, hv⟩ := Bool.and_eq_true_iff.1 hkv
    unfold evalEntries
    refine .bind (eval_fixed k hk) fun dk hdk => .bind (eval_fixed v hv) fun dv hdv =>
      .bind (requireKey_fixed hdk) fun _ _ => .bind (evalEntries_fixed rest hr) fun ds hds => ?_
    refine .pure (a := (dk, dv) :: ds) fun e he => ?_
    rcases List.mem_cons.1 he with rfl | he
    · exact ⟨hdk, hdv⟩
    · exact hds e he

end

/-- In any two sessions a literal expression fails with the same error, or has values that are
alike, and nothing changes but the next number. -/
theorem eval_literal {e : Expr} (h : e.literal = true) (σ σ' : Session) :
    (∃ err, eval e σ = .error err ∧ eval e σ' = .error err) ∨
      ∃ d d' k k', eval e σ = .ok (d, { σ with stamps := k }) ∧
        eval e σ' = .ok (d', { σ' with stamps := k' }) ∧
        d.Alike d' ∧ d.literal = true ∧ d'.literal = true := by
  obtain ⟨out, hgood, hout⟩ := eval_fixed e h 0
  have h₁ := hout σ.stamps σ rfl
  have h₂ := hout σ'.stamps σ' rfl
  cases out with
  | error err => exact .inl ⟨err, h₁, h₂⟩
  | ok p =>
    have hl (base : Stamp) : (p.1.shift base).literal = true :=
      (Datum.literal_renumber p.1).trans (hgood p rfl)
    refine .inr ⟨_, _, _, _, h₁, h₂, ⟨?_, Datum.detached_of_literal (hl _)⟩, hl _, hl _⟩
    exact (Datum.bare_renumber p.1).trans (Datum.bare_renumber p.1).symm

end Session

end RuleTree
