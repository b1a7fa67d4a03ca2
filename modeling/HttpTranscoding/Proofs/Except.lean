import Mathlib.Data.List.Forall2
import Mathlib.Data.List.Perm.Basic

/-!
# Computations that may fail

When a computation gives a result and when it gives an error: one after another
(`bind_eq_ok_iff`, `bind_eq_error_iff`), and for each item of a list in turn
(`mapM_eq_ok_iff`, `mapM_eq_error_iff`). The results are then related to the items one
by one. Where each item changes a state, what the steps preserve holds in the end
(`foldlM_invariant`).
-/

namespace HttpTranscoding

variable {ε α β : Type}

/-! ## Lists related item by item -/

section Related

variable {R : α → β → Prop} {items : List α} {results : List β}

theorem exists_mem_left (h : List.Forall₂ R items results) {result : β}
    (hresult : result ∈ results) : ∃ item ∈ items, R item result := by
  induction h with
  | nil => exact absurd hresult List.not_mem_nil
  | cons hitem _ ih =>
    obtain rfl | hresult := List.mem_cons.mp hresult
    · exact ⟨_, List.mem_cons_self, hitem⟩
    · obtain ⟨item, hmem, hitem⟩ := ih hresult
      exact ⟨item, List.mem_cons_of_mem _ hmem, hitem⟩

theorem exists_mem_right (h : List.Forall₂ R items results) {item : α} (hitem : item ∈ items) :
    ∃ result ∈ results, R item result :=
  exists_mem_left (R := fun y x => R x y) h.flip hitem

/-- What a list is filtered to is related to all of it if nothing is left out. -/
theorem forall₂_filterMap_iff {f : α → Option β} :
    List.Forall₂ R items (items.filterMap f) ↔ ∀ item ∈ items, ∃ x, f item = some x ∧ R item x := by
  induction items with
  | nil => simp
  | cons item rest ih =>
    cases hf : f item with
    | none =>
      have hshort := List.length_filterMap_le f rest
      have hlength : ¬List.Forall₂ R (item :: rest) (rest.filterMap f) := fun h => by
        have heq := h.length_eq
        rw [List.length_cons] at heq
        omega
      simp [List.filterMap_cons_none hf, hlength, hf]
    | some x => simp [List.filterMap_cons_some hf, List.forall₂_cons, ih, hf]

end Related

/-! ## Results and errors -/

theorem bind_eq_ok_iff {x : Except ε α} {f : α → Except ε β} {b : β} :
    (x >>= f) = .ok b ↔ ∃ a, x = .ok a ∧ f a = .ok b := by
  cases x with
  | error e => exact ⟨(nomatch ·), fun ⟨_, h, _⟩ => nomatch h⟩
  | ok a => exact ⟨fun h => ⟨a, rfl, h⟩, fun ⟨_, h, hf⟩ => Except.ok.inj h ▸ hf⟩

theorem bind_eq_error_iff {x : Except ε α} {f : α → Except ε β} {e : ε} :
    (x >>= f) = .error e ↔ x = .error e ∨ ∃ a, x = .ok a ∧ f a = .error e := by
  cases x <;> simp [bind, Except.bind]

theorem exists_error_iff {x : Except ε α} : (∃ e, x = .error e) ↔ ¬∃ a, x = .ok a := by
  cases x <;> simp

theorem exists_ok_iff {x : Except ε α} {p : Prop} (h : (∃ e, x = .error e) ↔ ¬p) :
    (∃ a, x = .ok a) ↔ p :=
  not_iff_not.mp (exists_error_iff.symm.trans h)

theorem map_eq_ok_iff {x : Except ε α} {f : α → β} {b : β} :
    x.map f = .ok b ↔ ∃ a, x = .ok a ∧ f a = b := by
  cases x <;> simp [Except.map]

theorem map_eq_error_iff {x : Except ε α} {f : α → β} {e : ε} :
    x.map f = .error e ↔ x = .error e := by
  cases x <;> simp [Except.map]

theorem exists_map_iff {x : Except ε α} {f : α → β} :
    (∃ b, x.map f = .ok b) ↔ ∃ a, x = .ok a := by
  cases x <;> simp [Except.map]

/-- A list is gone through without an error if no item of it gives one. -/
theorem exists_mapM_iff {f : α → Except ε β} {items : List α} :
    (∃ results, items.mapM f = .ok results) ↔ ∀ item ∈ items, ∃ result, f item = .ok result := by
  induction items with
  | nil => simp [pure, Except.pure]
  | cons item rest ih =>
    simp only [List.mapM_cons, bind_eq_ok_iff, List.forall_mem_cons, ← ih]
    constructor
    · rintro ⟨_, result, h, results, hrest, -⟩
      exact ⟨⟨result, h⟩, results, hrest⟩
    · rintro ⟨⟨result, h⟩, results, hrest⟩
      exact ⟨result :: results, result, h, results, hrest, rfl⟩

theorem mapM_eq_ok_iff {f : α → Except ε β} {items : List α} {results : List β} :
    items.mapM f = .ok results ↔
      List.Forall₂ (fun item result => f item = .ok result) items results := by
  induction items generalizing results with
  | nil => simp [pure, Except.pure, eq_comm]
  | cons item rest ih =>
    simp only [List.mapM_cons, bind_eq_ok_iff, List.forall₂_cons_left_iff, ← ih]
    constructor
    · rintro ⟨result, h, others, hrest, heq⟩
      exact ⟨result, others, h, hrest, (Except.ok.inj heq).symm⟩
    · rintro ⟨result, others, h, hrest, rfl⟩
      exact ⟨result, h, others, hrest, rfl⟩

/-- The lists that the items give, one after the other. -/
theorem flatten_mapM_eq_ok {f : α → Except ε (List β)} {g : α → List β} {items : List α}
    (h : ∀ item ∈ items, f item = .ok (g item)) :
    (do let found ← items.mapM f; return found.flatten) = .ok (items.flatMap g) := by
  have hmap : items.mapM f = .ok (items.map g) :=
    mapM_eq_ok_iff.mpr (List.forall₂_map_right_iff.mpr (List.forall₂_same.mpr h))
  rw [hmap, List.flatMap_def]
  rfl

theorem exists_of_mem_mapM {f : α → Except ε β} {items : List α} {results : List β}
    (h : items.mapM f = .ok results) {result : β} (hresult : result ∈ results) :
    ∃ item ∈ items, f item = .ok result :=
  exists_mem_left (mapM_eq_ok_iff.mp h) hresult

/-- Results come in the order of their items. -/
theorem perm_of_mapM {f : α → Except ε β} {items items' : List α} {results results' : List β}
    (hperm : items.Perm items') (h : items.mapM f = .ok results)
    (h' : items'.mapM f = .ok results') : results.Perm results' :=
  List.rel_perm_imp (fun _ _ _ hx hy => Except.ok.inj (hx.symm.trans hy)) (mapM_eq_ok_iff.mp h)
    (mapM_eq_ok_iff.mp h') hperm

/-- The first item that gives an error decides. -/
theorem mapM_eq_error_iff {f : α → Except ε β} {items : List α} {e : ε} :
    items.mapM f = .error e ↔ ∃ before item after, items = before ++ item :: after ∧
      (∀ i ∈ before, ∃ result, f i = .ok result) ∧ f item = .error e := by
  induction items with
  | nil => simp [pure, Except.pure]
  | cons item rest ih =>
    rw [List.mapM_cons, bind_eq_error_iff]
    simp only [bind_eq_error_iff, ih]
    constructor
    · rintro (h | ⟨result, h, ⟨before, i, after, rfl, hbefore, hi⟩ | ⟨_, _, hpure⟩⟩)
      · exact ⟨[], item, rest, rfl, by simp, h⟩
      · exact ⟨item :: before, i, after, rfl, List.forall_mem_cons.mpr ⟨⟨result, h⟩, hbefore⟩, hi⟩
      · cases hpure
    · rintro ⟨before, i, after, hsplit, hbefore, hi⟩
      cases before with
      | nil =>
        obtain ⟨rfl, -⟩ := List.cons.inj hsplit
        exact .inl hi
      | cons first before =>
        obtain ⟨rfl, rfl⟩ := List.cons.inj hsplit
        obtain ⟨⟨result, h⟩, hbefore⟩ := List.forall_mem_cons.mp hbefore
        exact .inr ⟨result, h, .inl ⟨before, i, after, rfl, hbefore, hi⟩⟩

/-! ## Steps that may fail -/

/-- Steps that a change of the state passes through are taken as before the change. -/
theorem foldlM_eq_map {f : β → α → Except ε β} {g : β → β} (h : ∀ b a, f (g b) a = (f b a).map g)
    (items : List α) (b : β) : items.foldlM f (g b) = (items.foldlM f b).map g := by
  induction items generalizing b with
  | nil => rfl
  | cons item rest ih =>
    rw [List.foldlM_cons, List.foldlM_cons, h]
    cases f b item with
    | error e => rfl
    | ok next => exact ih next

/-- What each step preserves holds in the end. -/
theorem foldlM_invariant {f : β → α → Except ε β} {P : β → Prop} {items : List α}
    (h : ∀ b, ∀ item ∈ items, ∀ next, P b → f b item = .ok next → P next) {b b' : β} (hb : P b)
    (hfold : items.foldlM f b = .ok b') : P b' := by
  induction items generalizing b with
  | nil => exact Except.ok.inj hfold ▸ hb
  | cons item rest ih =>
    rw [List.foldlM_cons, bind_eq_ok_iff] at hfold
    obtain ⟨next, hnext, hrest⟩ := hfold
    exact ih (fun b i hi => h b i (List.mem_cons_of_mem _ hi))
      (h b item List.mem_cons_self next hb hnext) hrest

end HttpTranscoding
