import HttpTranscoding.Check.Path
import HttpTranscoding.Proofs.Binding.Resolution
import HttpTranscoding.Proofs.Diagnostic.Formatting
import Mathlib.Data.List.ProdSigma
import Mathlib.Data.List.Sigma

/-!
# What is reported of overlapping variables

Overlaps are found between field paths. Which are found, and what is reported of them, is
already told by the path template: by the names of its variables, cut at the dots.

* `Violation.message_overlap`: the text of a report;
* `overlaps_eq_map_filter`: the pairs of places, row by row, from which overlaps are picked;
* `count_overlapPlaces`: how often a pair of places is picked by the names there;
* `overlaps_of_template`: the reports, read off the template.
-/

namespace HttpTranscoding

/-! ## The text of a report -/

theorem Violation.message_overlap (method : Method) (p q : FieldPath) :
    (overlap p q).message method =
      "path contains overlapping field paths '" ++ p.text ++ "' and '" ++ q.text ++ "'." := by
  have hmessage := (overlap p q).message_of_parts method "path contains overlapping field paths '"
    [(.text p.text, "' and '"), (.text q.text, "'.")] rfl rfl (by simp) (by decide +kernel) (by simp)
  simpa [String.join, String.append_assoc, Template.Argument.shown] using hmessage

/-! ## Pairs of places -/

/-- The pairs of different places, row by row, where the name at the first place is the one at the
second or leads towards it. -/
def overlapPlaces (names : List String) : List ((String × Nat) × (String × Nat)) :=
  (names.zipIdx ×ˢ names.zipIdx).filter fun x =>
    x.1.2 ≠ x.2.2 ∧ FieldPath.elements x.1.1 <+: FieldPath.elements x.2.1

theorem mem_overlapPlaces_iff {names : List String} {v w : String × Nat} :
    (v, w) ∈ overlapPlaces names ↔ (v ∈ names.zipIdx ∧ w ∈ names.zipIdx) ∧
      v.2 ≠ w.2 ∧ FieldPath.elements v.1 <+: FieldPath.elements w.1 := by
  simp [overlapPlaces]

theorem nodup_overlapPlaces (names : List String) : (overlapPlaces names).Nodup := by
  have hplaces : names.zipIdx.Nodup := (List.nodup_zipIdx_map_snd names).of_map _
  exact (hplaces.product hplaces).filter _

/-- A pair of places is picked once or not at all. -/
theorem count_overlapPlaces {names : List String} {v w : String × Nat} (hv : v ∈ names.zipIdx)
    (hw : w ∈ names.zipIdx) (hne : v.2 ≠ w.2) :
    (overlapPlaces names).count (v, w) =
      if FieldPath.elements v.1 <+: FieldPath.elements w.1 then 1 else 0 := by
  rw [(nodup_overlapPlaces names).count]
  simp only [mem_overlapPlaces_iff, hv, hw, hne, and_self, true_and, ne_eq, not_false_eq_true]

theorem overlapPlaces_eq_nil_iff {names : List String} :
    overlapPlaces names = [] ↔ names.Pairwise fun v w =>
      ¬FieldPath.elements v <+: FieldPath.elements w ∧
        ¬FieldPath.elements w <+: FieldPath.elements v := by
  rw [List.pairwise_iff_getElem]
  constructor
  · intro hnil i j hi hj hij
    have hnone : ∀ a b (ha : a < names.length) (hb : b < names.length), a ≠ b →
        ¬FieldPath.elements names[a] <+: FieldPath.elements names[b] := fun a b ha hb hne h => by
      have hmem : ((names[a], a), (names[b], b)) ∈ overlapPlaces names :=
        mem_overlapPlaces_iff.mpr ⟨⟨by simp [List.mk_mem_zipIdx_iff_getElem?],
          by simp [List.mk_mem_zipIdx_iff_getElem?]⟩, hne, h⟩
      rw [hnil] at hmem
      exact List.not_mem_nil hmem
    exact ⟨hnone i j hi hj (Nat.ne_of_lt hij), hnone j i hj hi (Nat.ne_of_gt hij)⟩
  · intro h
    refine List.eq_nil_iff_forall_not_mem.mpr fun ⟨⟨v, i⟩, ⟨w, j⟩⟩ hmem => ?_
    obtain ⟨⟨hv, hw⟩, hne, hvw⟩ := mem_overlapPlaces_iff.mp hmem
    obtain ⟨hi, rfl⟩ := List.getElem?_eq_some_iff.mp (List.mk_mem_zipIdx_iff_getElem?.mp hv)
    obtain ⟨hj, rfl⟩ := List.getElem?_eq_some_iff.mp (List.mk_mem_zipIdx_iff_getElem?.mp hw)
    obtain hij | hji := Nat.lt_or_gt_of_ne hne
    · exact (h i j hi hj hij).1 hvw
    · exact (h j i hj hi hji).2 hvw

/-- The pairs of places of mapped items, which are where the items were. -/
theorem product_zipIdx_map {α β : Type} (f : α → β) (items : List α) :
    (items.map f).zipIdx ×ˢ (items.map f).zipIdx =
      (items.zipIdx ×ˢ items.zipIdx).map (Prod.map (Prod.map f id) (Prod.map f id)) := by
  rw [List.zipIdx_map]
  simp only [SProd.sprod, List.product, List.flatMap_map, List.map_flatMap, List.map_map]
  rfl

namespace Check

/-- The overlaps are those of the pairs of different places, row by row. -/
theorem overlaps_eq_map_filter (paths : List FieldPath) :
    overlaps paths = ((paths.zipIdx ×ˢ paths.zipIdx).filter fun x =>
      x.1.2 ≠ x.2.2 && x.1.1.covers x.2.1).map fun x => .overlap x.1.1 x.2.1 := by
  unfold overlaps
  simp only [SProd.sprod, List.product, List.filter_flatMap, List.map_flatMap, List.filter_map,
    List.map_map]
  rfl

end Check

/-! ## Reports read off a template -/

/-- What is reported of a method in whose path template `v` overlaps with `w`. -/
def overlapReport (method : Method) (v w : String) : Diagnostic where
  kind := .overlappingPathSelectors
  severity := .error
  location := method.location
  message := "path contains overlapping field paths '" ++ v ++ "' and '" ++ w ++ "'."

theorem diagnostic_overlap (method : Method) (p q : FieldPath) :
    (Violation.overlap p q).diagnostic method = overlapReport method p.text q.text := by
  rw [Violation.diagnostic, Violation.message_overlap]
  rfl

section Template

variable {s : Schema} {method : Method} {rule : HttpRule} {b : Binding}

theorem Binding.covers_iff_of_mem_pathFields (h : resolve s method.input rule = .ok b)
    {p q : FieldPath} (hp : p ∈ b.pathFields) (hq : q ∈ b.pathFields) :
    p.covers q ↔ FieldPath.elements p.text <+: FieldPath.elements q.text := by
  obtain ⟨v, hv, hp⟩ := exists_of_mem_mapM (resolve_eq_ok_iff.mp h).1 hp
  obtain ⟨w, hw, hq⟩ := exists_of_mem_mapM (resolve_eq_ok_iff.mp h).1 hq
  have hblank := PathTemplate.not_isBlank_of_mem_namesIn hv
  have hblank' := PathTemplate.not_isBlank_of_mem_namesIn hw
  rw [FieldPath.covers_iff_of_resolve hblank hblank' hp hq, FieldPath.text_of_resolve hblank hp,
    FieldPath.text_of_resolve hblank' hq]

/-- Every overlap that is found is one of the names in the template. -/
theorem Binding.overlaps_eq (h : resolve s method.input rule = .ok b) :
    (Check.overlaps b.pathFields).map (·.diagnostic method) =
      (overlapPlaces (PathTemplate.namesIn rule.template)).map fun x =>
        overlapReport method x.1.1 x.2.1 := by
  -- At two places, the paths there are compared as the names are that they resolve.
  have hsame : ∀ x ∈ b.pathFields.zipIdx ×ˢ b.pathFields.zipIdx,
      (x.1.2 ≠ x.2.2 && x.1.1.covers x.2.1) =
        decide (x.1.2 ≠ x.2.2 ∧ FieldPath.elements x.1.1.text <+: FieldPath.elements x.2.1.text) :=
    fun ⟨⟨p, i⟩, ⟨q, j⟩⟩ hx => by
      obtain ⟨hp, hq⟩ := List.mem_product.mp hx
      have hcovers := covers_iff_of_mem_pathFields h (List.fst_mem_of_mem_zipIdx hp)
        (List.fst_mem_of_mem_zipIdx hq)
      rw [Bool.eq_iff_iff, decide_eq_true_iff, ← hcovers]
      simp
  rw [← map_text_pathFields h, overlapPlaces, product_zipIdx_map, List.filter_map, List.map_map,
    Check.overlaps_eq_map_filter, List.map_map, List.filter_congr hsame]
  exact List.map_congr_left fun x _ => diagnostic_overlap method x.1.1 x.2.1

/-- What is reported of overlapping variables is told by their names in the template, cut at the
dots: row by row, each pair of different places where the first name is the second or its
beginning, and nothing else. Two places with equal names are therefore reported in both orders,
two where one name is the beginning of the other in one order only, that one first, and there is
nothing to report if no name is another or the beginning of one. -/
theorem overlaps_of_template (h : Binding.resolve s method.input rule = .ok b) :
    (Check.overlaps b.pathFields).map (·.diagnostic method) =
      (overlapPlaces (PathTemplate.namesIn rule.template)).map (fun x =>
        overlapReport method x.1.1 x.2.1) ∧
    (∀ v ∈ (PathTemplate.namesIn rule.template).zipIdx,
      ∀ w ∈ (PathTemplate.namesIn rule.template).zipIdx, v.2 ≠ w.2 →
        FieldPath.elements v.1 <+: FieldPath.elements w.1 →
          (overlapPlaces (PathTemplate.namesIn rule.template)).count (v, w) = 1 ∧
          (overlapPlaces (PathTemplate.namesIn rule.template)).count (w, v) =
            if FieldPath.elements v.1 = FieldPath.elements w.1 then 1 else 0) ∧
    (Check.overlaps b.pathFields = [] ↔
      (PathTemplate.namesIn rule.template).Pairwise fun v w =>
        ¬FieldPath.elements v <+: FieldPath.elements w ∧
          ¬FieldPath.elements w <+: FieldPath.elements v) := by
  refine ⟨Binding.overlaps_eq h, fun v hv w hw hne hvw => ⟨?_, ?_⟩, ?_⟩
  · rw [count_overlapPlaces hv hw hne, if_pos hvw]
  · have hiff : FieldPath.elements w.1 <+: FieldPath.elements v.1 ↔
        FieldPath.elements v.1 = FieldPath.elements w.1 :=
      ⟨fun hwv => hvw.eq_of_length_le hwv.length_le, fun heq => heq ▸ List.prefix_rfl⟩
    rw [count_overlapPlaces hw hv hne.symm]
    simp only [hiff]
  · rw [← overlapPlaces_eq_nil_iff, ← List.map_eq_nil_iff, Binding.overlaps_eq h,
      List.map_eq_nil_iff]

end Template

/-! ## A shelf with a book -/

def bookTitle : Field := ⟨"v1.Book", 0, "title", 1, ⟨.string, false, none⟩⟩

def shelfBook : Field := ⟨"v1.Shelf", 0, "book", 1, ⟨.message, false, some ⟨"v1.Book", false⟩⟩⟩

def shelfBookCount : Field := ⟨"v1.Shelf", 1, "book_count", 2, ⟨.int32, false, none⟩⟩

def shelfSchema : Schema where
  messages := [⟨"v1.Book", "shelves.proto", false, [bookTitle]⟩,
    ⟨"v1.Shelf", "shelves.proto", false, [shelfBook, shelfBookCount]⟩]
  methods := []
  targets := ["shelves.proto"]

/-- A rule that binds the title of the book twice, the number of books, and the book. -/
def shelfRule : HttpRule :=
  ⟨some (.standard .get "/v1/{book.title}/{book_count}/{ book }/{book.title=*}"), "", "", []⟩

def getShelf : Method :=
  ⟨"v1.Shelves.GetShelf", ⟨"v1.Shelf", false⟩, ⟨"v1.Shelf", false⟩, some shelfRule,
    .ofElement "shelves.proto" "v1.Shelves.GetShelf"⟩

/-- The title overlaps with itself, in both orders, and the book with each title; the number of
books, whose name only begins like that of the book, overlaps with nothing. -/
theorem overlaps_shelfRule :
    ∃ b, Binding.resolve shelfSchema getShelf.input shelfRule = .ok b ∧
      (Check.overlaps b.pathFields).map (·.diagnostic getShelf) =
        [overlapReport getShelf "book.title" "book.title",
          overlapReport getShelf "book" "book.title", overlapReport getShelf "book" "book.title",
          overlapReport getShelf "book.title" "book.title"] := by
  have hnames : PathTemplate.namesIn shelfRule.template =
      ["book.title", "book_count", "book", "book.title"] := by cbv
  have hplaces : overlapPlaces ["book.title", "book_count", "book", "book.title"] =
      [(("book.title", 0), ("book.title", 3)), (("book", 2), ("book.title", 0)),
        (("book", 2), ("book.title", 3)), (("book.title", 3), ("book.title", 0))] := by
    decide +kernel
  have hresolve : ∃ b, Binding.resolve shelfSchema getShelf.input shelfRule = .ok b := by
    rw [Binding.exists_resolve_iff, HttpRule.references, hnames]
    simp only [List.forall_mem_append, List.forall_mem_cons]
    exact ⟨⟨⟨_, rfl⟩, ⟨_, rfl⟩, ⟨_, rfl⟩, ⟨_, rfl⟩, List.forall_mem_nil _⟩, List.forall_mem_nil _⟩
  obtain ⟨b, hb⟩ := hresolve
  obtain ⟨hreports, -, -⟩ := overlaps_of_template hb
  rw [hnames, hplaces] at hreports
  exact ⟨b, hb, hreports⟩

end HttpTranscoding
