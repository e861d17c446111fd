import RuleTree.Proofs.Blocks.Serialization

/-!
# Reading a text back

Blocks of which neither the selectors nor the bodies hold braces can be told apart in the text that
they make together.

* `Chars.before?`, `Chars.block?`, `Chars.blocks?`: what stands before the next brace, the next
  block, and all blocks of a text;
* `Chars.blocks?_encode`: blocks without braces are read back;
* `RuleSet.filled`, `Store.contents`: the selector and the body of each rule set that shows
  something, parents first and children in order;
* `Store.Unbraced`: a tree without braces;
* `Machine.decodes`: in every state of a script the text of a tree without braces is read back as
  its contents.
-/

namespace RuleTree

namespace Chars

/-- What stands before the next character of a kind, and what stands behind it. -/
def before? (stop : Char) : List Char → Option (List Char × List Char)
  | [] => none
  | c :: rest =>
    if c = stop then some ([], rest) else (before? stop rest).map fun p => (c :: p.1, p.2)

/-- What is left of a text that begins with a character. -/
def behind? (first : Char) : List Char → Option (List Char)
  | [] => none
  | c :: rest => if c = first then some rest else none

/-- What is left of a text that ends with a character. -/
def ahead? (last : Char) (text : List Char) : Option (List Char) :=
  if text.getLast? = some last then some text.dropLast else none

/-- The selector and the body of the block that a text begins with, and the text behind it. -/
def block? (text : List Char) : Option ((String × String) × List Char) := do
  let (head, rest) ← before? '\x7b' text
  let selector ← ahead? ' ' head
  let rest ← behind? '\n' rest
  let (body, rest) ← before? '\x7d' rest
  let rest ← behind? '\n' rest
  return ((.ofList selector, .ofList body), rest)

variable {stop first last : Char} {text front back rest : List Char}

theorem before?_append (h : stop ∉ front) :
    before? stop (front ++ stop :: back) = some (front, back) := by
  induction front with
  | nil => simp [before?]
  | cons c front ih =>
    rw [List.mem_cons, not_or] at h
    rw [List.cons_append, before?, if_neg (Ne.symm h.1), ih h.2]
    rfl

theorem before?_eq_none (h : stop ∉ text) : before? stop text = none := by
  induction text with
  | nil => rfl
  | cons c text ih =>
    rw [List.mem_cons, not_or] at h
    rw [before?, if_neg (Ne.symm h.1), ih h.2]
    rfl

theorem length_lt_of_before? (h : before? stop text = some (front, back)) :
    back.length < text.length := by
  induction text generalizing front with
  | nil => cases h
  | cons c text ih =>
    rw [before?] at h
    split at h
    · cases h
      exact Nat.lt_succ_self _
    · obtain ⟨⟨front', back'⟩, hb, he⟩ := Option.map_eq_some_iff.1 h
      cases he
      exact Nat.lt_succ_of_lt (ih hb)

@[simp] theorem behind?_cons : behind? first (first :: rest) = some rest := if_pos rfl

theorem length_le_of_behind? (h : behind? first text = some rest) : rest.length ≤ text.length := by
  cases text with
  | nil => cases h
  | cons c text =>
    rw [behind?] at h
    split at h
    · cases h
      exact Nat.le_succ _
    · cases h

@[simp] theorem ahead?_concat : ahead? last (front ++ [last]) = some front := by
  simp [ahead?]

theorem length_lt_of_block? {block : String × String} (h : block? text = some (block, rest)) :
    rest.length < text.length := by
  simp only [block?, bind, Option.bind_eq_some_iff, Prod.exists] at h
  obtain ⟨head, r₁, h₁, selector, -, r₂, h₂, body, r₃, h₃, r₄, h₄, he⟩ := h
  cases he
  calc rest.length ≤ r₃.length := length_le_of_behind? h₄
    _ < r₂.length := length_lt_of_before? h₃
    _ ≤ r₁.length := length_le_of_behind? h₂
    _ < text.length := length_lt_of_before? h₁

/-- The selectors and the bodies of the blocks that make up a text. -/
def blocks? (text : List Char) : Option (List (String × String)) :=
  if text = [] then some []
  else match _h : block? text with
    | none => none
    | some (block, rest) => (blocks? rest).map (block :: ·)
termination_by text.length
decreasing_by exact length_lt_of_block? _h

@[simp] theorem blocks?_nil : blocks? [] = some [] := by
  rw [blocks?, if_pos rfl]

theorem blocks?_of_block? {block : String × String} (h : block? text = some (block, rest)) :
    blocks? text = (blocks? rest).map (block :: ·) := by
  rw [blocks?, if_neg]
  · split
    · rename_i hn
      rw [hn] at h
      cases h
    · rename_i hs
      rw [hs] at h
      cases h
      rfl
  · rintro rfl
    cases h

end Chars

/-- Text without braces. -/
def Braceless (text : String) : Prop := '\x7b' ∉ text.toList ∧ '\x7d' ∉ text.toList

instance (text : String) : Decidable (Braceless text) := inferInstanceAs (Decidable (_ ∧ _))

namespace Braceless

theorem append {s t : String} (hs : Braceless s) (ht : Braceless t) : Braceless (s ++ t) := by
  simp only [Braceless, String.toList_append, List.mem_append, not_or]
  exact ⟨⟨hs.1, ht.1⟩, hs.2, ht.2⟩

theorem join {texts : List String} (h : ∀ t ∈ texts, Braceless t) :
    Braceless (String.join texts) := by
  induction texts with
  | nil => exact (by decide : Braceless "")
  | cons t texts ih =>
    rw [String.join_cons]
    exact (h t List.mem_cons_self).append (ih fun u hu => h u (List.mem_cons_of_mem _ hu))

end Braceless

/-- Whether a value is a text without braces. -/
def Datum.isBraceless : Datum → Bool
  | .text t => decide (Braceless t)
  | _ => false

theorem Datum.exists_of_isBraceless {d : Datum} (h : d.isBraceless = true) :
    ∃ t, d = .text t ∧ Braceless t := by
  cases d with
  | text t => exact ⟨t, rfl, of_decide_eq_true h⟩
  | _ => cases h

namespace Chars

/-- A block without braces is read back, whatever stands behind it. -/
theorem block?_append {selector body : String} (hs : Braceless selector) (hb : Braceless body)
    (rest : List Char) :
    block? ((blockText selector body).toList ++ rest) = some ((selector, body), rest) := by
  have hl : (blockText selector body).toList ++ rest =
      (selector.toList ++ [' ']) ++ '\x7b' :: '\n' :: (body.toList ++ '\x7d' :: '\n' :: rest) := by
    simp [blockText, String.toList_append]
  have hh : '\x7b' ∉ selector.toList ++ [' '] := by
    rw [List.mem_append, not_or]
    exact ⟨hs.1, by decide⟩
  rw [hl, block?, before?_append hh]
  simp [before?_append hb.2]

/-- Blocks without braces are read back from the text that they make together. -/
theorem blocks?_encode {blocks : List (String × String)}
    (h : ∀ b ∈ blocks, Braceless b.1 ∧ Braceless b.2) :
    blocks? (String.join (blocks.map fun b => blockText b.1 b.2)).toList = some blocks := by
  induction blocks with
  | nil => exact blocks?_nil
  | cons b blocks ih =>
    obtain ⟨hs, hb⟩ := h b List.mem_cons_self
    rw [List.map_cons, String.join_cons, String.toList_append,
      blocks?_of_block? (block?_append hs hb _), ih fun c hc => h c (List.mem_cons_of_mem _ hc)]
    rfl

end Chars

/-- The selector and the body of a rule set, if there is a body. -/
def RuleSet.filled (r : RuleSet) (emit : Bool) (selector : String) : Option (String × String) :=
  let body := r.declared emit selector ++ r.text
  if body = "" then none else some (selector, body)

theorem RuleSet.shown_eq (r : RuleSet) (emit : Bool) (selector : String) :
    r.shown emit selector = (r.filled emit selector).map fun b => blockText b.1 b.2 := by
  unfold shown filled
  dsimp only
  split <;> rfl

/-- The lines of custom properties without braces hold none. -/
theorem RuleSet.braceless_declared {r : RuleSet} {emit : Bool}
    (h : emit = true → ∀ e ∈ r.scope.entries, Braceless e.1 ∧ Braceless e.2) (selector : String) :
    Braceless (r.declared emit selector) := by
  unfold declared
  split
  · rename_i he
    refine Braceless.join fun line hl => ?_
    obtain ⟨e, hm, rfl⟩ := List.mem_map.1 hl
    obtain ⟨hn, ht⟩ := h (Bool.and_eq_true_iff.1 he).1 e hm
    exact ((((by decide : Braceless "--").append hn).append (by decide)).append ht).append
      (by decide)
  · decide

namespace Store

/-- The selector and the body that a rule set shows in a tree that emits custom properties or does
not. -/
def content (s : Store) (emit : Bool) (x : NodeId) : Option (String × String) :=
  match (s.get x).selector with
  | .text selector => (s.get x).filled emit selector
  | _ => none

/-- The selectors and the bodies that the rule sets of a tree show, parents first and children in
order. -/
def contents (s : Store) (n : NodeId) : List (String × String) :=
  (s.forest.preorder n).filterMap (s.content (s.emits n))

/-- What a tree shows are the blocks of its contents. -/
theorem renderings_eq (s : Store) (n : NodeId) :
    s.renderings n = (s.contents n).map fun b => blockText b.1 b.2 := by
  rw [renderings, contents, List.map_filterMap]
  refine List.filterMap_congr fun x _ => ?_
  unfold rendering content emits
  cases (s.get x).selector with
  | text selector => exact RuleSet.shown_eq ..
  | _ => rfl

/-- A tree in which the selectors are texts without braces, and neither the texts nor, if custom
properties are written, the scopes hold any. -/
structure Unbraced (s : Store) (n : NodeId) : Prop where
  selectors : ∀ x ∈ s.forest.preorder n, (s.get x).selector.isBraceless = true
  texts : ∀ x ∈ s.forest.preorder n, Braceless (s.get x).text
  scopes : s.emits n = true → ∀ x ∈ s.forest.preorder n, ∀ e ∈ (s.get x).scope.entries,
    Braceless e.1 ∧ Braceless e.2

namespace Unbraced

variable {s : Store} {n : NodeId}

/-- The contents of a tree without braces have none. -/
theorem contents (hu : s.Unbraced n) : ∀ b ∈ s.contents n, Braceless b.1 ∧ Braceless b.2 := by
  intro b hb
  obtain ⟨x, hx, hc⟩ := List.mem_filterMap.1 hb
  obtain ⟨t, ht, hs⟩ := Datum.exists_of_isBraceless (hu.selectors x hx)
  rw [content, ht] at hc
  simp only [RuleSet.filled] at hc
  split at hc
  · cases hc
  · cases hc
    have hd := RuleSet.braceless_declared (fun he => hu.scopes he x hx) t
    exact ⟨hs, hd.append (hu.texts x hx)⟩

/-- What a tree without braces shows is read back as its contents. -/
theorem decodes_join (hu : s.Unbraced n) :
    Chars.blocks? (String.join (s.renderings n)).toList = some (s.contents n) := by
  rw [renderings_eq]
  exact Chars.blocks?_encode hu.contents

theorem isText (hu : s.Unbraced n) : (s.get n).selector.isText = true := by
  obtain ⟨t, ht, -⟩ := Datum.exists_of_isBraceless (hu.selectors n (Forest.mem_preorder_self _ n))
  rw [ht]
  rfl

end Unbraced

end Store

namespace Machine

/-- The text of a rule set in a state of a script. -/
theorem read_css_eq (s : Script) (k : Nat) {n : NodeId}
    (hu : (run k (load s)).session.store.Unbraced n) :
    ((run k (load s)).session.read (.node n) .css).result? =
      some (.ok (.text (String.join ((run k (load s)).session.store.renderings n)))) := by
  show some (((run k (load s)).session.css n).map _) = _
  rw [show (run k (load s)).session.css n = _ from (owned s k).css_eq hu.isText _]
  rfl

/-- In every state of a script the blocks of a tree without braces are made of its contents, and its
text is read back as these, so that no other contents have that text. -/
theorem decodes (s : Script) (k : Nat) (n : NodeId)
    (unbraced : (run k (load s)).session.store.Unbraced n) :
    let σ := (run k (load s)).session
    (σ.read (.node n) .blocks).result? =
      some (.ok (.value (.list ((σ.store.contents n).map fun b => .text (blockText b.1 b.2))))) ∧
    ∃ text, (σ.read (.node n) .css).result? = some (.ok (.text text)) ∧
      Chars.blocks? text.toList = some (σ.store.contents n) ∧
      ∀ (s' : Script) (k' : Nat) (n' : NodeId),
        let σ' := (run k' (load s')).session
        σ'.store.Unbraced n' → (σ'.read (.node n') .css).result? = some (.ok (.text text)) →
        σ'.store.contents n' = σ.store.contents n := by
  intro σ
  refine ⟨?_, _, read_css_eq s k unbraced, unbraced.decodes_join, ?_⟩
  · show some ((σ.store.blocks σ.hostName n).map _) = _
    rw [(owned s k).blocks_eq unbraced.isText, Store.renderings_eq]
    simp only [Except.map, List.map_map]
    rfl
  · -- the same text is read back in one way only
    intro s' k' n' σ' hu' he
    rw [read_css_eq s' k' hu'] at he
    injection he with he
    injection he with he
    injection he with he
    injection he with he
    have hd := hu'.decodes_join
    rw [he, unbraced.decodes_join] at hd
    exact (Option.some.inj hd).symm

end Machine

/-- A script whose selectors and texts hold blanks, line ends and what looks like more text. -/
def Script.blank : Script where
  steps := [.mk (.build (.text "a \n b") (.inline [
      .mk (.write (.enclosing 0) (.text " c: d;\n\n e ")) none none,
      .mk (.define (.enclosing 0) "k" (.text "v\n")) none none,
      .mk (.select (.enclosing 0) "select" (some (.text " > c")) (some (.inline [
        .mk (.write (.enclosing 0) (.text "\n")) none none]))) none none])
    none [("emit_custom_properties", .bool true)]) none none]
  generators := .empty
  logs := false

/-- Two blocks are read back with their blanks and line ends. -/
theorem Machine.decodes_blank :
    (run 15 (load .blank)).session.store.Unbraced 0 ∧
      ∃ text, ((run 15 (load .blank)).session.read (.node 0) .css).result? =
          some (.ok (.text text)) ∧
        Chars.blocks? text.toList =
          some [("a \n b", "--k: v\n;\n c: d;\n\n e "), ("a \n b > c", "\n")] := by
  have hpre : (run 15 (load .blank)).session.store.forest.preorder 0 = [0, 1] := by
    have h₀ : ((run 15 (load .blank)).session.store.forest.get 0).children = [1] := by
      decide +kernel
    have h₁ : ((run 15 (load .blank)).session.store.forest.get 1).children = [] := by
      decide +kernel
    rw [Forest.preorder_eq, h₀, List.flatMap_singleton, Forest.preorder_eq, h₁, List.flatMap_nil]
  have hu : (run 15 (load .blank)).session.store.Unbraced 0 := by
    refine ⟨?_, ?_, fun _ => ?_⟩
    · rw [hpre]
      decide +kernel
    · rw [hpre]
      decide +kernel
    · rw [hpre]
      decide +kernel
  have hc : (run 15 (load .blank)).session.store.contents 0 =
      [("a \n b", "--k: v\n;\n c: d;\n\n e "), ("a \n b > c", "\n")] := by
    rw [Store.contents, hpre]
    decide +kernel
  obtain ⟨-, text, ht, hd, -⟩ := decodes .blank 15 0 hu
  exact ⟨hu, text, ht, hd.trans (congrArg some hc)⟩

end RuleTree
