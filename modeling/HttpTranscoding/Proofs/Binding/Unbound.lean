import HttpTranscoding.Binding.Unbound
import HttpTranscoding.Proofs.FieldPath
import HttpTranscoding.Proofs.Schema.Chain
import Mathlib.Data.List.Infix

/-!
# What bound paths leave over

Which paths `unboundPaths` yields, said without recursion on remainders. A path is
left over where no bound path begins with its first field, or below a field that
some bound path goes through and that holds one message (`Unbound`).

* `Unbound.incomparable`: nothing left over meets a bound path;
* `Unbound.not_repeated`: a path that is left over ends at the first repeated field it
  comes to;
* `Chain.bound_or_unbound`: every other chain of fields is met by a bound path or
  begins with a path left over.
-/

namespace HttpTranscoding

variable {s : Schema}

theorem mem_remainders {f : Field} {paths : List (List Field)} {rest : List Field} :
    rest ∈ remainders f paths ↔ f :: rest ∈ paths := by
  unfold remainders
  rw [List.mem_filterMap]
  constructor
  · rintro ⟨p, hp, h⟩
    cases p with
    | nil => simp at h
    | cons g tail =>
      obtain ⟨rfl, rfl⟩ : g = f ∧ tail = rest := by simpa using h
      exact hp
  · intro h
    exact ⟨f :: rest, h, by simp⟩

theorem remainders_eq_nil_iff {f : Field} {paths : List (List Field)} :
    remainders f paths = [] ↔ ∀ rest, f :: rest ∉ paths := by
  simp only [List.eq_nil_iff_forall_not_mem, mem_remainders]

theorem Field.nested?_eq_some_iff {f : Field} {t : MessageRef} :
    f.nested? = some t ↔ ¬f.type.repeated ∧ f.type.target = some t := by
  unfold Field.nested?
  grind

/-- The path `p` from the message `m` is left over by the `bound` fields. -/
inductive Unbound (s : Schema) : String → List (List Field) → FieldPath → Prop
  | whole {m : String} {bound : List (List Field)} {f : Field} (field : f ∈ s.fieldsOf m)
      (free : remainders f bound = []) : Unbound s m bound (.single f)
  | part {m : String} {bound : List (List Field)} {f : Field} {t : MessageRef} {p : FieldPath}
      (field : f ∈ s.fieldsOf m) (through : remainders f bound ≠ [])
      (past : [] ∉ remainders f bound) (nested : f.nested? = some t)
      (rest : Unbound s t.fullName (remainders f bound) p) : Unbound s m bound (.cons f p)

theorem mem_unboundPaths_of_unbound {m : String} {bound : List (List Field)} {p : FieldPath}
    (h : Unbound s m bound p) : p ∈ unboundPaths s m bound := by
  induction h with
  | whole field free =>
    rw [unboundPaths]
    exact List.mem_flatMap.mpr ⟨_, field, by simp [free]⟩
  | part field through past nested _ ih =>
    rw [unboundPaths]
    refine List.mem_flatMap.mpr ⟨_, field, ?_⟩
    simp only [through, past, nested, ↓reduceDIte, ↓reduceIte]
    exact List.mem_map_of_mem ih

theorem unbound_of_mem_unboundPaths {m : String} {bound : List (List Field)} {p : FieldPath}
    (h : p ∈ unboundPaths s m bound) : Unbound s m bound p := by
  induction hn : bound.flatten.length using Nat.strongRecOn generalizing m bound p with
  | ind n ih =>
    rw [unboundPaths] at h
    obtain ⟨f, field, h⟩ := List.mem_flatMap.mp h
    by_cases free : remainders f bound = []
    · obtain rfl : p = .single f := by simpa [free] using h
      exact .whole field free
    · by_cases past : [] ∈ remainders f bound
      · simp [free, past] at h
      · cases nested : f.nested? with
        | none => simp [free, past, nested] at h
        | some t =>
          simp only [free, past, nested, ↓reduceDIte, ↓reduceIte] at h
          obtain ⟨q, hq, rfl⟩ := List.mem_map.mp h
          exact .part field free past nested
            (ih _ (hn ▸ length_flatten_remainders_lt free) hq rfl)

theorem mem_unboundPaths_iff {m : String} {bound : List (List Field)} {p : FieldPath} :
    p ∈ unboundPaths s m bound ↔ Unbound s m bound p :=
  ⟨unbound_of_mem_unboundPaths, mem_unboundPaths_of_unbound⟩

namespace Unbound

variable {m : String} {bound : List (List Field)} {p : FieldPath}

/-- Nothing left over begins with a bound path or leads towards one. -/
theorem incomparable (h : Unbound s m bound p) :
    ∀ b ∈ bound, b ≠ [] → ¬b <+: p.fields ∧ ¬p.fields <+: b := by
  induction h with
  | @whole m bound f _ free =>
    intro b hb hne
    have hfree : ∀ rest, f :: rest ∉ bound := fun rest hrest =>
      List.not_mem_nil (free ▸ mem_remainders.mpr hrest)
    cases b with
    | nil => exact absurd rfl hne
    | cons g rest =>
      have hgf : g ≠ f := fun e => hfree rest (e ▸ hb)
      simp [FieldPath.single, List.cons_prefix_cons, hgf, Ne.symm hgf]
  | @part m bound f t p _ _ past _ _ ih =>
    intro b hb hne
    cases b with
    | nil => exact absurd rfl hne
    | cons g rest =>
      by_cases hgf : g = f
      · subst hgf
        have hrest : rest ∈ remainders g bound := mem_remainders.mpr hb
        obtain ⟨h₁, h₂⟩ := ih rest hrest fun e => past (e ▸ hrest)
        simp [FieldPath.cons, List.cons_prefix_cons, h₁, h₂]
      · simp [FieldPath.cons, List.cons_prefix_cons, hgf, Ne.symm hgf]

theorem not_repeated_of_append (h : Unbound s m bound p) {init rest : List Field} {g : Field}
    (hp : p.fields = init ++ g :: rest) (hne : rest ≠ []) : ¬g.type.repeated := by
  induction h generalizing init with
  | whole => cases init <;> simp_all [FieldPath.single]
  | part _ _ _ nested _ ih =>
    cases init with
    | nil =>
      obtain ⟨rfl, -⟩ := List.cons.inj hp
      exact (Field.nested?_eq_some_iff.mp nested).1
    | cons g' init =>
      obtain ⟨-, hp⟩ := List.cons.inj hp
      exact ih hp

/-- Only fields that are not repeated come before the last of a path that is left over. -/
theorem not_repeated (h : Unbound s m bound p) {q : FieldPath} (hq : q.isStrictPrefixOf p) :
    ¬q.type.repeated := by
  obtain ⟨rest, hne, hp⟩ := FieldPath.exists_append_of_isStrictPrefixOf hq
  exact h.not_repeated_of_append hp hne

end Unbound

/-- A chain of fields begins with a bound path, leads towards one, begins with a path left
over, or goes through a repeated field that a bound path goes through as well. -/
theorem Schema.Chain.bound_or_unbound {m : String} {d : List Field} (hd : s.Chain m d)
    (bound : List (List Field)) :
    (∃ b ∈ bound, b <+: d) ∨ (∃ b ∈ bound, d <+: b) ∨
      (∃ p ∈ unboundPaths s m bound, p.fields <+: d) ∨
      ∃ init g rest rest', d = init ++ g :: rest ∧ rest ≠ [] ∧ g.type.repeated ∧
        init ++ g :: rest' ∈ bound ∧ rest' ≠ [] := by
  induction hd generalizing bound with
  | @last m f field =>
    cases hr : remainders f bound with
    | nil =>
      have left : .single f ∈ unboundPaths s m bound := mem_unboundPaths_iff.mpr (.whole field hr)
      exact .inr (.inr (.inl ⟨_, left, List.prefix_rfl⟩))
    | cons r _ =>
      have hb : f :: r ∈ bound := mem_remainders.mp (by simp [hr])
      exact .inr (.inl ⟨_, hb, ⟨r, rfl⟩⟩)
  | @cons m f t rest field target tail ih =>
    by_cases free : remainders f bound = []
    · have left : .single f ∈ unboundPaths s m bound :=
        mem_unboundPaths_iff.mpr (.whole field free)
      exact .inr (.inr (.inl ⟨_, left, ⟨rest, rfl⟩⟩))
    by_cases past : [] ∈ remainders f bound
    · exact .inl ⟨[f], mem_remainders.mp past, ⟨rest, rfl⟩⟩
    by_cases hrep : f.type.repeated
    · obtain ⟨r, hr⟩ := List.exists_mem_of_ne_nil _ free
      have hne : r ≠ [] := fun e => past (e ▸ hr)
      exact .inr (.inr (.inr ⟨[], f, rest, r, rfl, tail.ne_nil, hrep, mem_remainders.mp hr, hne⟩))
    have nested : f.nested? = some t := Field.nested?_eq_some_iff.mpr ⟨hrep, target⟩
    obtain ⟨b, hb, hpre⟩ | ⟨b, hb, hpre⟩ | ⟨p, hp, hpre⟩ |
        ⟨init, g, d, r, hd, hne, hg, hr, hner⟩ := ih (remainders f bound)
    · exact .inl ⟨f :: b, mem_remainders.mp hb, List.cons_prefix_cons.mpr ⟨rfl, hpre⟩⟩
    · exact .inr (.inl ⟨f :: b, mem_remainders.mp hb, List.cons_prefix_cons.mpr ⟨rfl, hpre⟩⟩)
    · have left : .cons f p ∈ unboundPaths s m bound :=
        mem_unboundPaths_iff.mpr (.part field free past nested (mem_unboundPaths_iff.mp hp))
      exact .inr (.inr (.inl ⟨_, left, List.cons_prefix_cons.mpr ⟨rfl, hpre⟩⟩))
    · exact .inr (.inr (.inr ⟨f :: init, g, d, r, congrArg (f :: ·) hd, hne, hg,
        mem_remainders.mp hr, hner⟩))

end HttpTranscoding
