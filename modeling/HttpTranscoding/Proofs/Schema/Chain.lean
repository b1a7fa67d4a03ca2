import HttpTranscoding.FieldPath

/-!
# Chains of fields

A chain leads from a message through fields of nested messages, as a field path
does, but through any fields there are and not only through those that a dotted
path can name. A chain can be cut at any field of it: what comes up to the field
is a chain (`Chain.left_of_append`), and what follows it is one from the message
that the field holds (`Chain.right_of_append`). `Chain.concat` makes one longer.
-/

namespace HttpTranscoding.Schema

variable {s : Schema}

/-- The first field belongs to the message `m`, and each of the others to the message that
the one before it holds. -/
inductive Chain (s : Schema) : String → List Field → Prop
  | last {m : String} {f : Field} (field : f ∈ s.fieldsOf m) : Chain s m [f]
  | cons {m : String} {f : Field} {t : MessageRef} {rest : List Field} (field : f ∈ s.fieldsOf m)
      (target : f.type.target = some t) (tail : Chain s t.fullName rest) : Chain s m (f :: rest)

theorem Chain.ne_nil {m : String} {d : List Field} (h : s.Chain m d) : d ≠ [] := by
  cases h <;> simp

theorem Chain.head_mem {m : String} {f : Field} {rest : List Field} (h : s.Chain m (f :: rest)) :
    f ∈ s.fieldsOf m := by
  cases h <;> assumption

theorem Chain.tail {m : String} {f : Field} {rest : List Field} (h : s.Chain m (f :: rest))
    (hrest : rest ≠ []) : ∃ t, f.type.target = some t ∧ s.Chain t.fullName rest := by
  cases h with
  | last => exact absurd rfl hrest
  | cons _ target tail => exact ⟨_, target, tail⟩

/-- What follows the field `g` on a chain leads on from the message that `g` holds. -/
theorem Chain.right_of_append {m : String} {init rest : List Field} {g : Field}
    (h : s.Chain m (init ++ g :: rest)) (hrest : rest ≠ []) :
    ∃ t, g.type.target = some t ∧ s.Chain t.fullName rest := by
  induction init generalizing m with
  | nil => exact h.tail hrest
  | cons f init ih =>
    obtain ⟨t, -, tail⟩ := Chain.tail h (by simp)
    exact ih tail

/-- What comes up to the field `g` on a chain is a chain. -/
theorem Chain.left_of_append {m : String} {init rest : List Field} {g : Field}
    (h : s.Chain m (init ++ g :: rest)) : s.Chain m (init ++ [g]) := by
  induction init generalizing m with
  | nil => exact .last h.head_mem
  | cons f init ih =>
    obtain ⟨t, target, tail⟩ := Chain.tail h (by simp)
    exact .cons h.head_mem target (ih tail)

/-- A chain goes on with any field of the message that its last field holds. -/
theorem Chain.concat {m : String} {d : List Field} {f : Field} {t : MessageRef} (h : s.Chain m d)
    (target : (d.getLast h.ne_nil).type.target = some t) (field : f ∈ s.fieldsOf t.fullName) :
    s.Chain m (d ++ [f]) := by
  induction h with
  | last first => exact .cons first target (.last field)
  | cons first next tail ih =>
    rw [List.getLast_cons tail.ne_nil] at target
    exact .cons first next (ih target)

end HttpTranscoding.Schema
