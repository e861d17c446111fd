import RuleTree.Session.Select

/-!
# Calling selection methods

* `Method.Takes`: an argument is passed to a method that takes one, and to no other;
* `Session.callMethod_of_takes`: what calling a method comes to with what it takes;
* `Session.callMethod_none`: without a generator a method answers with its fragment, and changes
  nothing, unless it selects a kind;
* `Session.callMethod_some`: with a generator it is a selection by its fragment;
* `named_of_mem_catalog`, `named_of_mem_methods`: every shortcut of the catalog is a method, and no
  method is hidden by another one of its name.
-/

namespace RuleTree

namespace Method

/-- An argument is passed to a method that takes one, and to no other. -/
def Takes (m : Method) (argument : Option Datum) : Prop := argument.isSome = m.takesArgument

theorem bind_of_takes {m : Method} {argument : Option Datum} (h : m.Takes argument)
    (generator : Option Datum) : m.bind argument generator = .ok (argument, generator) := by
  unfold Takes at h
  unfold bind
  rw [← h]
  cases argument with
  | some d => rfl
  | none => rfl

theorem named_of_ofName? {name : String} {m : Method} (h : ofName? name = some m) :
    named name = .ok m := by
  unfold named
  rw [h]

end Method

namespace Session

variable {name : String} {m : Method} {argument : Option Datum}

/-- What is passed to a method that takes it reaches the method as it is. -/
theorem callMethod_of_takes (hm : Method.named name = .ok m) (ha : m.Takes argument) (σ : Session)
    (n : NodeId) (generator : Option Datum) : σ.callMethod n name argument generator =
      if m = .kind then σ.selectKind n (argument.getD .null) generator
      else σ.selectBy n m (argument.getD .null) generator := by
  unfold callMethod
  rw [hm]
  simp only [Method.bind_of_takes ha]

/-- Without a generator a method that does not select a kind answers with its fragment. -/
theorem callMethod_none (hm : Method.named name = .ok m) (ha : m.Takes argument) (hk : m ≠ .kind)
    (σ : Session) (n : NodeId) : σ.callMethod n name argument none =
      .answer σ ((m.fragmentOf σ.appearance (argument.getD .null)).map .value) := by
  rw [callMethod_of_takes hm ha, if_neg hk]
  unfold selectBy
  cases m.fragmentOf σ.appearance (argument.getD .null) <;> rfl

/-- With a generator it is a selection by its fragment, or fails like the fragment. -/
theorem callMethod_some (hm : Method.named name = .ok m) (ha : m.Takes argument) (hk : m ≠ .kind)
    (σ : Session) (n : NodeId) (generator : Datum) : σ.callMethod n name argument (some generator) =
      match m.fragmentOf σ.appearance (argument.getD .null) with
      | .error e => .refuse σ e
      | .ok fragment => σ.select n fragment (some generator) := by
  rw [callMethod_of_takes hm ha, if_neg hk]
  rfl

end Session

/-- The method of a shortcut goes by the name of the shortcut. -/
theorem named_of_mem_catalog :
    ∀ s ∈ catalog, Method.ofName? s.methodName = some (.shortcut s) := by
  decide +kernel

theorem named_of_mem_primitives :
    ∀ p ∈ Method.primitives, Method.ofName? p.1 = some p.2 := by
  decide +kernel

/-- No method is hidden by another one of its name. -/
theorem named_of_mem_methods :
    ∀ p ∈ Method.primitives ++ Method.shortcuts, Method.ofName? p.1 = some p.2 := by
  intro p hp
  rcases List.mem_append.1 hp with hp | hp
  · exact named_of_mem_primitives p hp
  · obtain ⟨s, hs, rfl⟩ := List.mem_map.1 hp
    exact named_of_mem_catalog s hs

end RuleTree
