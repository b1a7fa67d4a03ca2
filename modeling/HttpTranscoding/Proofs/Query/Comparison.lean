import HttpTranscoding.Proofs.Query.Walk
import Mathlib.Data.List.Flatten

/-!
# Walks compared

What becomes of a walk below a field if it begins with fewer messages open, or if more
fields are allowed.

* `walk_eq_of_subset`: a walk that finds no cycle finds the same with fewer messages open.
  A message that is closed instead of open changes what is found only where the walk
  comes to a field of its type, and that field is a cycle;
* `walk_filter_sublist_of_subset`: cycles apart, a walk finds no less with fewer messages open,
  since it goes below the same fields and perhaps below more;
* `parameterFields_of_subset`: both of them about the reports of a list of fields;
* `walk_sublist_of_subset`: a walk finds no more if more fields are allowed. To allow a
  field prunes what is below it wherever it stands, and no other branch is walked
  differently for that, since every branch is judged by the messages above it.
-/

namespace HttpTranscoding

theorem NameSet.insert_subset_insert {V W : NameSet} {n : String} (h : ∀ m ∈ V, m ∈ W) :
    ∀ m ∈ V.insert n, m ∈ W.insert n := by
  intro m hm
  rw [mem_insert] at hm ⊢
  exact hm.imp_right (h m)

theorem Field.Plain.unique {f : Field} {t u : MessageRef} (ht : f.Plain t) (hu : f.Plain u) :
    t = u :=
  Option.some.inj (ht.1.symm.trans hu.1)

/-- A field that is taken apart where more fields are allowed is taken apart where fewer are. -/
theorem Field.Expandable.anti {allowed₁ allowed₂ : NameSet} {f : Field} {t : MessageRef}
    (hsub : ∀ n ∈ allowed₁, n ∈ allowed₂) (h : f.Expandable allowed₂ t) :
    f.Expandable allowed₁ t :=
  ⟨h.1, fun hrep => h.2 ⟨hrep.1, hsub _ hrep.2⟩⟩

/-- Whether diagnostics of the kind are about what a field of a walk holds, and not about the
messages that it lies in. -/
def DiagnosticKind.concernsShape : DiagnosticKind → Bool
  | mapNotAllowedAsParam | repeatedMessageNotAllowedAsParam => true
  | cyclicParamReference | mapOrRepeatedOrDisallowedMessageOnPath | overlappingPathSelectors
  | bodyMustBeTopLevelField | bodyMustBeNonRepeatedAllowedMessage | responseNotJsonRenderable
  | additionalBindingHasNestedBindings | additionalBindingHasSelector => false

namespace Check

variable {s : Schema} {allowed : NameSet}

/-! ## Fewer open messages -/

/-- A field whose message is not open is judged alike with fewer messages open. -/
theorem faults_eq_of_subset {V₀ V : NameSet} {f : Field} (hsub : ∀ n ∈ V₀, n ∈ V)
    (hfresh : ∀ t, f.Plain t → t.fullName ∉ V) : faults allowed V₀ f = faults allowed V f := by
  unfold faults
  cases hshape : f.parameterShape with
  | map => rfl
  | value => rfl
  | message t =>
    have ht : t.fullName ∉ V := hfresh t (Field.parameterShape_eq_message_iff.mp hshape)
    have ht₀ : t.fullName ∉ V₀ := fun h => ht (hsub _ h)
    simp only [ht, ht₀, if_false]

theorem cyclicParameter_mem_walk {V : NameSet} {f : Field} {t : MessageRef} (hf : f.Plain t)
    (ht : t.fullName ∈ V) : .cyclicParameter f ∈ walk s allowed f V :=
  mem_walk_of_descent .here (cyclicParameter_mem_faults_iff.mpr ⟨rfl, t, hf, ht⟩)

/-- A walk that finds no cycle finds the same if fewer messages are open to begin with. -/
theorem walk_eq_of_subset {V₀ V : NameSet} {f : Field} (hsub : ∀ n ∈ V₀, n ∈ V)
    (hacyclic : ∀ g, .cyclicParameter g ∉ walk s allowed f V) :
    walk s allowed f V₀ = walk s allowed f V := by
  induction V, f using walk_induction s allowed generalizing V₀ with
  | stopped V f hstop =>
    have hfresh : ∀ t, f.Plain t → t.fullName ∉ V := fun t hf ht =>
      hacyclic f (cyclicParameter_mem_walk hf ht)
    have hstop₀ : ∀ t, f.Expandable allowed t → t.fullName ∈ V₀ := fun t ht =>
      absurd (hstop t ht) (hfresh t ht.1)
    rw [walk_of_stopped hstop, walk_of_stopped hstop₀, faults_eq_of_subset hsub hfresh]
  | opened V f t hf ht ih =>
    have hfresh : ∀ u, f.Plain u → u.fullName ∉ V := fun u hu => hu.unique hf.1 ▸ ht
    have ht₀ : t.fullName ∉ V₀ := fun h => ht (hsub _ h)
    rw [walk_of_opened hf ht] at hacyclic
    rw [walk_of_opened hf ht, walk_of_opened hf ht₀, faults_eq_of_subset hsub hfresh]
    congr 1
    refine List.flatMap_congr fun g hg => ih g hg (NameSet.insert_subset_insert hsub) fun c hc => ?_
    exact hacyclic c (List.mem_append_right _ (List.mem_flatMap.mpr ⟨g, hg, hc⟩))

/-- A field whose message is open is a cycle and nothing else. -/
theorem faults_filter_sublist_of_subset {V₀ V : NameSet} (hsub : ∀ n ∈ V₀, n ∈ V) (f : Field) :
    ((faults allowed V f).filter (·.kind.concernsShape)).Sublist
      ((faults allowed V₀ f).filter (·.kind.concernsShape)) := by
  by_cases hfresh : ∀ t, f.Plain t → t.fullName ∉ V
  · rw [faults_eq_of_subset hsub hfresh]
  · obtain ⟨t, hf, ht⟩ : ∃ t, f.Plain t ∧ t.fullName ∈ V := by simpa using hfresh
    have hcycle : faults allowed V f = [.cyclicParameter f] := by
      unfold faults
      simp only [Field.parameterShape_eq_message_iff.mpr hf, ht, if_true]
    rw [hcycle]
    exact List.nil_sublist _

/-- Cycles apart, a walk finds part of what it finds if fewer messages are open to begin with, in
the same order. -/
theorem walk_filter_sublist_of_subset {V₀ V : NameSet} (hsub : ∀ n ∈ V₀, n ∈ V) (f : Field) :
    ((walk s allowed f V).filter (·.kind.concernsShape)).Sublist
      ((walk s allowed f V₀).filter (·.kind.concernsShape)) := by
  -- The walk with fewer messages open goes as deep as the other one, so the induction is on it.
  induction V₀, f using walk_induction s allowed generalizing V with
  | stopped V₀ f hstop =>
    rw [walk_of_stopped hstop, walk_of_stopped fun t ht => hsub _ (hstop t ht)]
    exact faults_filter_sublist_of_subset hsub f
  | opened V₀ f t hf ht₀ ih =>
    have hfaults : ((faults allowed V f).filter (·.kind.concernsShape)).Sublist
        ((faults allowed V₀ f).filter (·.kind.concernsShape)) :=
      faults_filter_sublist_of_subset hsub f
    rw [walk_of_opened hf ht₀, List.filter_append]
    by_cases ht : t.fullName ∈ V
    · have hstop : ∀ u, f.Expandable allowed u → u.fullName ∈ V := fun u hu =>
        hf.1.unique hu.1 ▸ ht
      rw [walk_of_stopped hstop]
      exact hfaults.trans (List.sublist_append_left _ _)
    · rw [walk_of_opened hf ht, List.filter_append, List.filter_flatMap, List.filter_flatMap]
      exact hfaults.append <| List.Sublist.flatMap_right _ fun g hg =>
        ih g hg (NameSet.insert_subset_insert hsub)

/-- What is reported of a list of fields, if a walk of them begins with more messages open, is of
maps and repeated messages only part of what is reported with fewer open, in the same order. If
no cycle is reported, it is all the same. -/
theorem parameterFields_of_subset (s : Schema) (o : Options) (method : Method)
    (fields : List Field) {V₀ V : NameSet} (hsub : ∀ n ∈ V₀, n ∈ V) :
    (((parameterFields s o.allowed fields V).1.map (·.diagnostic method)).filter fun d =>
        d.kind = .mapNotAllowedAsParam ∨ d.kind = .repeatedMessageNotAllowedAsParam).Sublist
      (((parameterFields s o.allowed fields V₀).1.map (·.diagnostic method)).filter fun d =>
        d.kind = .mapNotAllowedAsParam ∨ d.kind = .repeatedMessageNotAllowedAsParam) ∧
    ((∀ d ∈ (parameterFields s o.allowed fields V).1.map (·.diagnostic method),
        d.kind ≠ .cyclicParamReference) →
      (parameterFields s o.allowed fields V₀).1.map (·.diagnostic method) =
        (parameterFields s o.allowed fields V).1.map (·.diagnostic method)) := by
  have hkinds : (fun d : Diagnostic => decide (d.kind = .mapNotAllowedAsParam ∨
      d.kind = .repeatedMessageNotAllowedAsParam)) ∘ (·.diagnostic method) =
        fun v : Violation => v.kind.concernsShape := by
    funext v
    cases v <;> rfl
  simp only [parameterFields_eq]
  constructor
  · rw [List.filter_map, List.filter_map, hkinds, List.filter_flatMap, List.filter_flatMap]
    exact (List.Sublist.flatMap_right _ fun f _ => walk_filter_sublist_of_subset hsub f).map _
  · intro hacyclic
    refine congrArg _ (List.flatMap_congr fun f hf => walk_eq_of_subset hsub fun g hg => ?_)
    exact hacyclic _ (List.mem_map_of_mem (List.mem_flatMap.mpr ⟨f, hf, hg⟩)) rfl

/-- The album that an album lies in. -/
def albumParent : Field :=
  ⟨"v1.Album", 0, "parent", 1, ⟨.message, false, some ⟨"v1.Album", false⟩⟩⟩

def albumTags : Field :=
  ⟨"v1.Album", 1, "tags", 2, ⟨.message, true, some ⟨"v1.Album.TagsEntry", true⟩⟩⟩

def listAlbums : Method :=
  ⟨"v1.Albums.ListAlbums", ⟨"v1.Album", false⟩, ⟨"v1.Album", false⟩, none,
    .ofElement "albums.proto" "v1.Albums.ListAlbums"⟩

def albumSchema : Schema where
  messages := [⟨"v1.Album", "albums.proto", false, [albumParent, albumTags]⟩,
    ⟨"v1.Album.TagsEntry", "albums.proto", true, []⟩]
  methods := [listAlbums]
  targets := ["albums.proto"]

/-- The tags of the album around an album are found only if albums are not open, the tags of an
album itself in any case. -/
theorem parameterFields_album :
    (∀ n ∈ (∅ : NameSet), n ∈ NameSet.ofNames ["v1.Album"]) ∧
    (parameterFields albumSchema Options.default.allowed [albumParent, albumTags]
      (NameSet.ofNames ["v1.Album"])).1 = [.cyclicParameter albumParent, .mapParameter albumTags] ∧
    (parameterFields albumSchema Options.default.allowed [albumParent, albumTags] ∅).1 =
      [.cyclicParameter albumParent, .mapParameter albumTags, .mapParameter albumTags] ∧
    ([Violation.mapParameter albumTags].map (·.diagnostic listAlbums)).Sublist
      ([Violation.mapParameter albumTags, .mapParameter albumTags].map
        (·.diagnostic listAlbums)) ∧
    (parameterFields albumSchema Options.default.allowed [albumTags] ∅).1.map
        (·.diagnostic listAlbums) = [(Violation.mapParameter albumTags).diagnostic listAlbums] := by
  have hsub : ∀ n ∈ (∅ : NameSet), n ∈ NameSet.ofNames ["v1.Album"] := fun n hn =>
    absurd hn Std.ExtTreeSet.not_mem_empty
  have hopen : (parameterFields albumSchema Options.default.allowed [albumParent, albumTags]
      (NameSet.ofNames ["v1.Album"])).1 =
        [.cyclicParameter albumParent, .mapParameter albumTags] := by decide +kernel
  have hclosed : (parameterFields albumSchema Options.default.allowed [albumParent, albumTags] ∅).1 =
      [.cyclicParameter albumParent, .mapParameter albumTags, .mapParameter albumTags] := by
    decide +kernel
  have htags : (parameterFields albumSchema Options.default.allowed [albumTags]
      (NameSet.ofNames ["v1.Album"])).1 = [.mapParameter albumTags] := by decide +kernel
  have hsublist := (parameterFields_of_subset albumSchema .default listAlbums
    [albumParent, albumTags] hsub).1
  rw [hopen, hclosed] at hsublist
  have hsame := (parameterFields_of_subset albumSchema .default listAlbums [albumTags] hsub).2
  rw [htags] at hsame
  exact ⟨hsub, hopen, hclosed, hsublist, hsame (by simp [Violation.diagnostic, Violation.kind])⟩

/-! ## More allowed fields -/

section Allowed

variable {allowed₁ allowed₂ : NameSet}

/-- A field by itself has less wrong with it if more fields are allowed. -/
theorem faults_sublist_of_subset (hsub : ∀ n ∈ allowed₁, n ∈ allowed₂) (V : NameSet) (f : Field) :
    (faults allowed₂ V f).Sublist (faults allowed₁ V f) := by
  unfold faults
  cases f.parameterShape with
  | map => exact .refl _
  | value => exact .refl _
  | message t =>
    by_cases hV : t.fullName ∈ V
    · simp [hV]
    · by_cases hallowed : f.fullName ∈ allowed₂
      · simp [hV, hallowed]
      · have hallowed₁ : f.fullName ∉ allowed₁ := fun h => hallowed (hsub _ h)
        simp [hV, hallowed, hallowed₁]

/-- A walk finds part of what it finds if fewer fields are allowed, in the same order. -/
theorem walk_sublist_of_subset (hsub : ∀ n ∈ allowed₁, n ∈ allowed₂) (V : NameSet) (f : Field) :
    (walk s allowed₂ f V).Sublist (walk s allowed₁ f V) := by
  induction V, f using walk_induction s allowed₁ with
  | stopped V f hstop =>
    rw [walk_of_stopped hstop, walk_of_stopped fun t ht => hstop t (ht.anti hsub)]
    exact faults_sublist_of_subset hsub V f
  | opened V f t hf ht ih =>
    rw [walk_of_opened hf ht]
    have hfaults := faults_sublist_of_subset hsub V f
    by_cases hf₂ : f.Expandable allowed₂ t
    · rw [walk_of_opened hf₂ ht]
      exact hfaults.append (List.Sublist.flatMap_right _ ih)
    -- What is allowed now is not taken apart any more.
    · have hstop : ∀ u, f.Expandable allowed₂ u → u.fullName ∈ V := fun u hu =>
        absurd (hu.1.unique hf.1 ▸ hu) hf₂
      rw [walk_of_stopped hstop]
      exact hfaults.trans (List.sublist_append_left _ _)

end Allowed

end Check

end HttpTranscoding
