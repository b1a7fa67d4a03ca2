import HttpTranscoding.Proofs.Except
import Mathlib.Data.List.Nodup

/-!
# Listings

What stands at addresses, listed in the order of these. An address is made of indexes: the
first leads from a list to an item of it, the next to something in that item, and so on.
Addresses are in lexicographic order, so what an item holds comes after the item itself and
before the item that follows it.

What the items of a list become is listed at their indexes (`Lists.zipIdx_map`); listings are
put together by `Lists.cons` and `Lists.flatMap`, and `Lists.forall₂` lists what becomes of
listed things.

* `Lists.mem_iff`: the things that are listed;
* `Lists.findRev?_eq_some_iff`: the last listed thing with a property;
* `Lists.mapM_eq_error_iff`: the first listed thing that a computation fails for.
-/

namespace HttpTranscoding

variable {α β ε : Type}

/-- The items are the things that stand somewhere, in the order of their addresses. -/
def Lists (P : List Nat → α → Prop) (items : List α) : Prop :=
  ∃ entries : List (List Nat × α), entries.Pairwise (fun x y => x.1 < y.1) ∧
    (∀ x, x ∈ entries ↔ P x.1 x.2) ∧ entries.map (·.2) = items

namespace Lists

variable {P Q : List Nat → α → Prop} {items before after : List α} {a : List Nat} {x y : α}

/-! ## Where the items stand -/

theorem mem_iff (h : Lists P items) : x ∈ items ↔ ∃ a, P a x := by
  obtain ⟨entries, -, hmem, rfl⟩ := h
  simp [hmem]

/-- In sorted entries, those before another are the entries at smaller addresses. -/
theorem mem_before_iff {before after : List (List Nat × α)} {e x : List Nat × α}
    (h : (before ++ e :: after).Pairwise fun x y => x.1 < y.1) :
    x ∈ before ↔ x ∈ before ++ e :: after ∧ x.1 < e.1 := by
  obtain ⟨-, htail, hbefore⟩ := List.pairwise_append.mp h
  have hafter := (List.pairwise_cons.mp htail).1
  constructor
  · exact fun hx => ⟨List.mem_append_left _ hx, hbefore x hx e List.mem_cons_self⟩
  · rintro ⟨hx, hlt⟩
    rcases List.mem_append.mp hx with hx | hx
    · exact hx
    rcases List.mem_cons.mp hx with rfl | hx
    · exact absurd hlt (List.lt_irrefl _)
    · exact absurd (hafter x hx) (List.lt_asymm hlt)

/-- In sorted entries, those after another are the entries at greater addresses. -/
theorem mem_after_iff {before after : List (List Nat × α)} {e x : List Nat × α}
    (h : (before ++ e :: after).Pairwise fun x y => x.1 < y.1) :
    x ∈ after ↔ x ∈ before ++ e :: after ∧ e.1 < x.1 := by
  obtain ⟨-, htail, hbefore⟩ := List.pairwise_append.mp h
  have hafter := (List.pairwise_cons.mp htail).1
  constructor
  · exact fun hx => ⟨List.mem_append_right _ (List.mem_cons_of_mem _ hx), hafter x hx⟩
  · rintro ⟨hx, hlt⟩
    rcases List.mem_append.mp hx with hx | hx
    · exact absurd (hbefore x hx e List.mem_cons_self) (List.lt_asymm hlt)
    rcases List.mem_cons.mp hx with rfl | hx
    · exact absurd hlt (List.lt_irrefl _)
    · exact hx

/-- An item stands at an address that tells what comes before it and what after. -/
theorem exists_at (h : Lists P (before ++ x :: after)) :
    ∃ a, P a x ∧ (∀ y, y ∈ before ↔ ∃ b, b < a ∧ P b y) ∧
      ∀ y, y ∈ after ↔ ∃ b, a < b ∧ P b y := by
  obtain ⟨entries, hsorted, hmem, hitems⟩ := h
  obtain ⟨entriesBefore, rest, rfl, rfl, hrest⟩ := List.map_eq_append_iff.mp hitems
  obtain ⟨e, entriesAfter, rfl, rfl, rfl⟩ := List.map_eq_cons_iff.mp hrest
  refine ⟨e.1, (hmem e).mp (by simp), fun y => ?_, fun y => ?_⟩
  · simp only [List.mem_map, Prod.exists, exists_eq_right, mem_before_iff hsorted, hmem]
    exact exists_congr fun b => and_comm
  · simp only [List.mem_map, Prod.exists, exists_eq_right, mem_after_iff hsorted, hmem]
    exact exists_congr fun b => and_comm

/-- What stands at an address comes after what stands at smaller ones, and before the rest. -/
theorem exists_split (h : Lists P items) (hx : P a x) :
    ∃ before after, items = before ++ x :: after ∧ (∀ y, y ∈ before ↔ ∃ b, b < a ∧ P b y) ∧
      ∀ y, y ∈ after ↔ ∃ b, a < b ∧ P b y := by
  obtain ⟨entries, hsorted, hmem, rfl⟩ := h
  obtain ⟨before, after, rfl⟩ := List.append_of_mem ((hmem (a, x)).mpr hx)
  refine ⟨before.map (·.2), after.map (·.2), by simp, fun y => ?_, fun y => ?_⟩
  · simp only [List.mem_map, Prod.exists, exists_eq_right, mem_before_iff hsorted, hmem]
    exact exists_congr fun b => and_comm
  · simp only [List.mem_map, Prod.exists, exists_eq_right, mem_after_iff hsorted, hmem]
    exact exists_congr fun b => and_comm

/-- Keys are not repeated in the list if things at different addresses have different ones. -/
theorem nodup_map_iff {key : α → β} (h : Lists P items) :
    (items.map key).Nodup ↔ ∀ a b x y, P a x → P b y → key x = key y → a = b := by
  obtain ⟨entries, hsorted, hmem, rfl⟩ := h
  rw [List.map_map]
  constructor
  · intro h a b x y hx hy heq
    exact congrArg Prod.fst
      (List.inj_on_of_nodup_map h ((hmem (a, x)).mpr hx) ((hmem (b, y)).mpr hy) heq)
  · intro h
    refine List.pairwise_map.mpr (hsorted.imp_of_mem fun {e e'} he he' hlt heq => ?_)
    have ha : e.1 = e'.1 := h _ _ _ _ ((hmem e).mp he) ((hmem e').mp he') heq
    exact List.lt_irrefl _ (ha ▸ hlt)

/-! ## Putting listings together -/

theorem congr (h : Lists P items) (hPQ : ∀ a x, P a x ↔ Q a x) : Lists Q items := by
  obtain rfl : P = Q := funext fun a => funext fun x => propext (hPQ a x)
  exact h

theorem nil (h : ∀ a x, ¬P a x) : Lists P [] :=
  ⟨[], .nil, fun x => by simp [h], rfl⟩

/-- Something that stands at the top, before all that has an address below. -/
theorem cons (h : Lists P items) (htop : ∀ y, ¬P [] y) :
    Lists (fun a y => a = [] ∧ y = x ∨ P a y) (x :: items) := by
  obtain ⟨entries, hsorted, hmem, rfl⟩ := h
  refine ⟨([], x) :: entries, List.pairwise_cons.mpr ⟨fun e he => ?_, hsorted⟩, fun e => ?_, rfl⟩
  · match he' : e.1 with
    | [] => exact absurd ((hmem e).mp he) (he' ▸ htop e.2)
    | k :: b => exact List.nil_lt_cons k b
  · simp [hmem, Prod.ext_iff]

/-- Listings of blocks, one after the other, under the indexes of the blocks from `n` on. -/
theorem flatten_from {P : Nat → List Nat → α → Prop} {blocks : List (List α)} (n : Nat)
    (h : ∀ k, Lists (P k) (blocks[k]?.getD [])) :
    Lists (fun a x => ∃ k b, a = (n + k) :: b ∧ P k b x) blocks.flatten := by
  induction blocks generalizing n P with
  | nil =>
    refine nil fun a x => ?_
    rintro ⟨k, b, -, hx⟩
    simpa using (h k).mem_iff.mpr ⟨b, hx⟩
  | cons block rest ih =>
    obtain ⟨first, hfirst, hmem, hblock⟩ := h 0
    obtain ⟨others, hothers, hmem', hrest⟩ :=
      ih (P := fun k => P (k + 1)) (n + 1) fun k => h (k + 1)
    refine ⟨first.map (fun e => (n :: e.1, e.2)) ++ others,
      List.pairwise_append.mpr ⟨?_, hothers, ?_⟩, fun e => ?_, ?_⟩
    -- All of the first block stands under `n`, and the other blocks under greater indexes.
    · rw [List.pairwise_map]
      exact hfirst.imp fun hlt => List.cons_lt_cons_iff.mpr (.inr ⟨rfl, hlt⟩)
    · intro e he e' he'
      obtain ⟨e, -, rfl⟩ := List.mem_map.mp he
      obtain ⟨k, b, hb, -⟩ := (hmem' e').mp he'
      rw [hb]
      exact List.cons_lt_cons_iff.mpr (.inl (by omega))
    · rw [List.mem_append, hmem', List.mem_map]
      constructor
      · rintro (⟨e, he, rfl⟩ | ⟨k, b, hb, hx⟩)
        · exact ⟨0, e.1, rfl, (hmem e).mp he⟩
        · exact ⟨k + 1, b, by rw [hb]; congr 1; omega, hx⟩
      · rintro ⟨k, b, hb, hx⟩
        cases k with
        | zero => exact .inl ⟨(b, e.2), (hmem _).mpr hx, Prod.ext hb.symm rfl⟩
        | succ k => exact .inr ⟨k, b, by rw [hb]; congr 1; omega, hx⟩
    · rw [List.map_append, List.map_map, hrest, List.flatten_cons]
      exact congrArg (· ++ rest.flatten) hblock

/-- Listings of blocks, one after the other, under the indexes of the blocks. -/
theorem flatten {P : Nat → List Nat → α → Prop} {blocks : List (List α)}
    (h : ∀ k, Lists (P k) (blocks[k]?.getD [])) :
    Lists (fun a x => ∃ k b, a = k :: b ∧ P k b x) blocks.flatten := by
  simpa using flatten_from 0 h

/-- What each item of a list gives with its index, under the index. -/
theorem zipIdx_flatMap {P : Nat → β → List Nat → α → Prop} {items : List β}
    {f : β × Nat → List α} (h : ∀ k b, items[k]? = some b → Lists (P k b) (f (b, k))) :
    Lists (fun a x => ∃ k c b, a = k :: c ∧ items[k]? = some b ∧ P k b c x)
      (items.zipIdx.flatMap f) := by
  have hblocks : ∀ k, Lists (fun c x => ∃ b, items[k]? = some b ∧ P k b c x)
      ((items.zipIdx.map f)[k]?.getD []) := by
    intro k
    rw [List.getElem?_map, List.getElem?_zipIdx]
    cases hk : items[k]? with
    | none => exact nil fun a x => by simp
    | some b => exact (Nat.zero_add k ▸ h k b hk).congr fun a x => by simp
  refine (flatten hblocks).congr fun a x => ?_
  exact ⟨fun ⟨k, c, ha, b, hb⟩ => ⟨k, c, b, ha, hb⟩, fun ⟨k, c, b, ha, hb⟩ => ⟨k, c, ha, b, hb⟩⟩

/-- What each item of a list gives, under the index of the item. -/
theorem flatMap {P : Nat → β → List Nat → α → Prop} {items : List β} {f : β → List α}
    (h : ∀ k b, items[k]? = some b → Lists (P k b) (f b)) :
    Lists (fun a x => ∃ k c b, a = k :: c ∧ items[k]? = some b ∧ P k b c x) (items.flatMap f) := by
  have hitems : (items.zipIdx.map Prod.fst).flatMap f = items.zipIdx.flatMap fun p => f p.1 :=
    List.flatMap_map ..
  rw [List.zipIdx_map_fst] at hitems
  rw [hitems]
  exact zipIdx_flatMap h

/-- What becomes of each item of a list with its index, at the index. -/
theorem zipIdx_map {items : List β} (f : β × Nat → α) :
    Lists (fun a x => ∃ k b, a = [k] ∧ items[k]? = some b ∧ x = f (b, k))
      (items.zipIdx.map f) := by
  have hblocks : Lists (fun a x => ∃ k c b, a = k :: c ∧ items[k]? = some b ∧
      (c = [] ∧ x = f (b, k))) (items.zipIdx.flatMap fun p => [f p]) :=
    zipIdx_flatMap (P := fun k b c x => c = [] ∧ x = f (b, k)) fun k b _ =>
      ((nil (P := fun _ _ => False) (by simp)).cons (by simp)).congr (by simp)
  rw [List.map_eq_flatMap]
  exact hblocks.congr fun a x => by grind

/-- The items of a list with their indexes, at these. -/
theorem zipIdx (items : List β) :
    Lists (fun a p => a = [p.2] ∧ items[p.2]? = some p.1) items.zipIdx := by
  have hid : Lists (fun a x => ∃ k b, a = [k] ∧ items[k]? = some b ∧ x = (b, k))
      (items.zipIdx.map fun p => p) := zipIdx_map fun p => p
  rw [List.map_id'] at hid
  exact hid.congr fun a p => by grind

/-- What becomes of the items, where each becomes one thing. -/
theorem forall₂ {R : α → β → Prop} {results : List β} (h : Lists P items)
    (hR : List.Forall₂ R items results) (hunique : Relator.RightUnique R) :
    Lists (fun a y => ∃ x, P a x ∧ R x y) results := by
  obtain ⟨entries, hsorted, hmem, rfl⟩ := h
  -- Each result stands at the address of its item.
  have hresults : ∃ entries' : List (List Nat × β), entries'.map (·.2) = results ∧
      List.Forall₂ (fun e e' => e.1 = e'.1 ∧ R e.2 e'.2) entries entries' := by
    clear hsorted hmem
    rw [List.forall₂_map_left_iff] at hR
    induction hR with
    | nil => exact ⟨[], rfl, .nil⟩
    | @cons e y _ _ hey _ ih =>
      obtain ⟨entries', rfl, hentries⟩ := ih
      exact ⟨(e.1, y) :: entries', rfl, .cons ⟨rfl, hey⟩ hentries⟩
  obtain ⟨entries', rfl, hentries⟩ := hresults
  have haddresses : entries.map (·.1) = entries'.map (·.1) :=
    List.forall₂_eq_eq_eq ▸ List.forall₂_map_left_iff.mpr (List.forall₂_map_right_iff.mpr
      (hentries.imp fun _ _ he => he.1))
  refine ⟨entries', ?_, fun e' => ⟨fun he' => ?_, ?_⟩, rfl⟩
  · have hpairwise : (entries.map (·.1)).Pairwise (· < ·) := List.pairwise_map.mpr hsorted
    rw [haddresses] at hpairwise
    exact List.pairwise_map.mp hpairwise
  · obtain ⟨e, he, ha, hx⟩ := exists_mem_left hentries he'
    exact ⟨e.2, ha ▸ (hmem e).mp he, hx⟩
  · rintro ⟨x, hx, hy⟩
    obtain ⟨e, he, ha, hx'⟩ := exists_mem_right hentries ((hmem (e'.1, x)).mpr hx)
    rwa [Prod.ext (ha : e'.1 = e.1) (hunique hy hx' : e'.2 = e.2)]

/-- What becomes of the items by a function. -/
theorem map (h : Lists P items) (f : α → β) :
    Lists (fun a y => ∃ x, P a x ∧ y = f x) (items.map f) := by
  refine h.forall₂ (R := fun x y => y = f x) ?_ fun x y z hy hz => hy.trans hz.symm
  rw [List.forall₂_map_right_iff]
  exact List.forall₂_same.mpr fun _ _ => rfl

/-! ## The first and the last item of a kind -/

/-- The last item with a property is the one that has no other at a greater address. -/
theorem findRev?_eq_some_iff {p : α → Bool} (h : Lists P items) :
    items.findRev? p = some x ↔ ∃ a, P a x ∧ p x ∧ ∀ b y, P b y → p y → ¬a < b := by
  rw [List.findRev?_eq_find?_reverse, List.find?_eq_some_iff_append]
  simp only [List.reverse_eq_append_iff, List.reverse_cons, List.append_assoc,
    List.singleton_append]
  constructor
  · rintro ⟨hp, last, first, rfl, hlast⟩
    obtain ⟨a, ha, -, hafter⟩ := h.exists_at
    refine ⟨a, ha, hp, fun b y hy hpy hlt => ?_⟩
    have hmem := (hafter y).mpr ⟨b, hlt, hy⟩
    simpa [hpy] using hlast y (List.mem_reverse.mp hmem)
  · rintro ⟨a, ha, hp, hlast⟩
    obtain ⟨before, after, rfl, -, hafter⟩ := h.exists_split ha
    refine ⟨hp, after.reverse, before.reverse, by simp, fun y hy => ?_⟩
    obtain ⟨b, hlt, hy⟩ := (hafter y).mp (List.mem_reverse.mp hy)
    by_contra hpy
    exact hlast b y hy (by simpa using hpy) hlt

/-- A computation fails for the items in turn where it fails for one and for none at a smaller
address. -/
theorem mapM_eq_error_iff {f : α → Except ε β} {e : ε} (h : Lists P items) :
    items.mapM f = .error e ↔
      ∃ a x, P a x ∧ f x = .error e ∧ ∀ b y, P b y → b < a → ∃ result, f y = .ok result := by
  rw [HttpTranscoding.mapM_eq_error_iff]
  constructor
  · rintro ⟨before, x, after, rfl, hbefore, hx⟩
    obtain ⟨a, ha, hmem, -⟩ := h.exists_at
    exact ⟨a, x, ha, hx, fun b y hy hlt => hbefore y ((hmem y).mpr ⟨b, hlt, hy⟩)⟩
  · rintro ⟨a, x, ha, hx, hbefore⟩
    obtain ⟨before, after, rfl, hmem, -⟩ := h.exists_split ha
    refine ⟨before, x, after, rfl, fun y hy => ?_, hx⟩
    obtain ⟨b, hlt, hy⟩ := (hmem y).mp hy
    exact hbefore b y hy hlt

end Lists

end HttpTranscoding
