import HttpTranscoding.Check.Path
import Mathlib.Data.List.Perm.Basic

/-!
# Overlaps of path variables

Each path variable is compared with the ones at all other places. Which overlaps there are
does not depend on the places: a path overlaps as often as there are other paths that it
covers.

* `overlaps_eq`: the overlaps, path by path;
* `overlaps_perm`: permuted paths have their overlaps permuted.
-/

namespace HttpTranscoding.Check

/-- The items at all places but one, from those with their places. -/
theorem filter_zipIdx_ne {α : Type} (c : α → Bool) (items : List α) (i n : Nat) :
    ((items.zipIdx n).filter fun x => n + i ≠ x.2 && c x.1).map (·.1) =
      (items.eraseIdx i).filter c := by
  induction items generalizing i n with
  | nil => rfl
  | cons item rest ih =>
    rw [List.zipIdx_cons]
    cases i with
    | zero =>
      have hlater : ∀ x ∈ rest.zipIdx (n + 1), (n + 0 ≠ x.2 && c x.1) = c x.1 := by
        intro x hx
        have hle := List.le_snd_of_mem_zipIdx hx
        have hne : n ≠ x.2 := by omega
        simp [hne]
      rw [List.filter_cons_of_neg (by simp), List.filter_congr hlater, List.eraseIdx_cons_zero]
      conv_rhs => rw [← List.zipIdx_map_fst (n + 1) rest, List.filter_map]
      rfl
    | succ i =>
      have hshift : n + (i + 1) = n + 1 + i := by omega
      have hne : n + 1 + i ≠ n := by omega
      rw [hshift, List.eraseIdx_cons_succ]
      by_cases hc : c item
      · rw [List.filter_cons_of_pos (by simp [hne, hc]), List.map_cons, ih,
          List.filter_cons_of_pos hc]
      · rw [List.filter_cons_of_neg (by simp [hc]), ih, List.filter_cons_of_neg hc]

/-- The overlaps of one path with others, the path named first. -/
def overlapsWith (p : FieldPath) (others : List FieldPath) : List Violation :=
  (others.filter (p.covers ·)).map (.overlap p ·)

theorem overlapsWith_perm (p : FieldPath) {others others' : List FieldPath}
    (h : others.Perm others') : (overlapsWith p others).Perm (overlapsWith p others') :=
  (h.filter _).map _

/-- Every path is compared with the paths at all other places. -/
theorem overlaps_eq (paths : List FieldPath) :
    overlaps paths = paths.zipIdx.flatMap fun x => overlapsWith x.1 (paths.eraseIdx x.2) := by
  unfold overlaps overlapsWith
  refine List.flatMap_congr fun x _ => ?_
  have hothers := filter_zipIdx_ne (x.1.covers ·) paths x.2 0
  simp only [Nat.zero_add] at hothers
  rw [← hothers, List.map_map]
  rfl

/-- It does not matter at which place a path stands that is compared with the others. -/
theorem overlaps_perm_erase (paths : List FieldPath) :
    (overlaps paths).Perm (paths.flatMap fun p => overlapsWith p (paths.erase p)) := by
  have hpaths : paths.flatMap (fun p => overlapsWith p (paths.erase p)) =
      paths.zipIdx.flatMap fun x => overlapsWith x.1 (paths.erase x.1) := by
    conv_lhs => rw [← List.zipIdx_map_fst 0 paths, List.flatMap_map, List.zipIdx_map_fst]
  rw [overlaps_eq, hpaths]
  refine List.Perm.flatMap_left _ fun x hx => overlapsWith_perm x.1 ?_
  obtain ⟨hlt, hx⟩ := List.getElem?_eq_some_iff.mp (List.mem_zipIdx_iff_getElem?.mp hx)
  exact hx ▸ (List.erase_getElem hlt).symm

/-- Permuted paths have their overlaps permuted. -/
theorem overlaps_perm {paths paths' : List FieldPath} (h : paths.Perm paths') :
    (overlaps paths).Perm (overlaps paths') := by
  refine (overlaps_perm_erase paths).trans (.trans ?_ (overlaps_perm_erase paths').symm)
  exact h.flatMap fun p _ => overlapsWith_perm p (h.erase p)

end HttpTranscoding.Check
