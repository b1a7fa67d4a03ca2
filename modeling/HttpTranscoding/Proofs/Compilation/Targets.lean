import HttpTranscoding.Compilation.Basic
import HttpTranscoding.Proofs.Compilation.AbsolutePath
import HttpTranscoding.Proofs.Except

/-!
# Sources and targets

A source is to be a target under the name that it has in the first directory of the search
path that it lies in. Its own directory is added to the search path if it is below none, so
there is such a directory. But what lies in a root is not taken to be below it: a source is
lost, or named as seen from a later directory, if a root comes before every other directory
that it lies in.

* `foldl_extend`: the search path;
* `exists_find?`: the directory that a source is named in, if no root comes first;
* `names_targets`: when every source is a target under its name;
* `not_forall_names`: a source that is lost.
-/

namespace HttpTranscoding

open AbsolutePath

variable {c : Compilation} {source directory d : AbsolutePath}

/-- Whether the directory holds the path, or is a root whose text the path begins with. -/
def AbsolutePath.Meets (directory p : AbsolutePath) : Prop :=
  directory.Holds p ∨ directory.names = [] ∧ (directory.doubled → p.doubled)

instance (directory p : AbsolutePath) : Decidable (directory.Meets p) :=
  inferInstanceAs (Decidable (_ ∨ _))

/-! ## The search path -/

namespace Compilation

theorem foldl_extend (searchPath sources : List AbsolutePath) :
    ∃ added, added.Sublist (sources.map parent) ∧
      sources.foldl extend searchPath = searchPath ++ added := by
  induction sources generalizing searchPath with
  | nil => exact ⟨[], .slnil, (List.append_nil _).symm⟩
  | cons source sources ih =>
    obtain ⟨added, hadded, hfold⟩ := ih (extend searchPath source)
    rw [List.foldl_cons, hfold, extend]
    split
    · exact ⟨added, hadded.cons _, rfl⟩
    · exact ⟨source.parent :: added, hadded.cons_cons _, by simp⟩

theorem covered_of_mem_foldl (searchPath : List AbsolutePath) {sources : List AbsolutePath}
    (hsource : source ∈ sources) :
    ∃ d ∈ sources.foldl extend searchPath, source.isBelow d ∨ d = source.parent := by
  induction sources generalizing searchPath with
  | nil => exact absurd hsource List.not_mem_nil
  | cons first sources ih =>
    obtain rfl | hsource := List.mem_cons.mp hsource
    · obtain ⟨added, -, hfold⟩ := foldl_extend (extend searchPath source) sources
      rw [List.foldl_cons, hfold, extend]
      split
      · rename_i hbelow
        obtain ⟨d, hd, hbelow⟩ := List.any_eq_true.mp hbelow
        exact ⟨d, List.mem_append_left _ hd, .inl hbelow⟩
      · exact ⟨source.parent, by simp, .inr rfl⟩
    · exact ih _ hsource

/-- The directories that a command names are those of the search path. -/
theorem filter_command (c : Compilation) (workspace : String) :
    (c.command workspace).filter (fun argument => "-I".toList.isPrefixOf argument.toList) =
      c.searchPath.map fun d => "-I" ++ d.text := by
  have hdirectories : ∀ argument ∈ c.searchPath.map fun d => "-I" ++ d.text,
      "-I".toList.isPrefixOf argument.toList = true := by
    intro argument hargument
    obtain ⟨d, -, rfl⟩ := List.mem_map.mp hargument
    simp
  have hsources : ∀ argument ∈ c.sources.map (·.text),
      ¬"-I".toList.isPrefixOf argument.toList = true := by
    intro argument hargument
    obtain ⟨x, -, rfl⟩ := List.mem_map.mp hargument
    unfold text
    split <;> simp
  unfold command
  rw [List.filter_append, List.filter_append, List.filter_eq_self.mpr hdirectories,
    List.filter_eq_nil_iff.mpr hsources]
  simp

/-! ## Names of sources -/

/-- The source is called `target` in the first directory of the search path that it lies
in. -/
def Names (c : Compilation) (source : AbsolutePath) (target : String) : Prop :=
  ∃ d rest, c.searchPath.find? (·.Holds source) = some d ∧ source.names = d.names ++ rest ∧
    target = "/".intercalate rest ∧ d.join target = source.text ∧ ofText d target = source

/-- The directory that comes first of those that hold the source and of the roots that it
begins with is a root. -/
def RootFirst (c : Compilation) (source : AbsolutePath) : Prop :=
  ∃ d ∈ c.searchPath.find? (·.Meets source), d.names = []

instance (c : Compilation) (source : AbsolutePath) : Decidable (c.RootFirst source) :=
  inferInstanceAs (Decidable (∃ d ∈ c.searchPath.find? (·.Meets source), d.names = []))

/-- A first directory stays the first if others are left out. -/
theorem find?_eq_some_of_imp {α : Type} {items : List α} {P Q : α → Bool} {x : α}
    (h : items.find? P = some x) (hx : Q x) (himp : ∀ y, Q y → P y) : items.find? Q = some x := by
  obtain ⟨-, before, after, hsplit, hbefore⟩ := List.find?_eq_some_iff_append.mp h
  refine List.find?_eq_some_iff_append.mpr ⟨hx, before, after, hsplit, fun y hy => ?_⟩
  have hnot := hbefore y hy
  simp only [Bool.not_eq_true'] at hnot ⊢
  exact Bool.eq_false_iff.mpr fun hQ => Bool.eq_false_iff.mp hnot (himp y hQ)

/-- Some directory of the search path holds the source, or is a root that it begins with. -/
theorem exists_meets {searchPath sources : List AbsolutePath} (hsource : source ∈ sources) :
    ∃ d ∈ sources.foldl extend searchPath, d.Meets source := by
  obtain ⟨d, hd, hbelow | rfl⟩ := covered_of_mem_foldl searchPath hsource
  · obtain ⟨-, hholds⟩ | ⟨hroot, -, hsingle⟩ := isBelow_iff.mp hbelow
    · exact ⟨d, hd, .inl hholds⟩
    · exact ⟨d, hd, .inr ⟨hroot, fun h => absurd h hsingle⟩⟩
  · by_cases hroot : source.names = []
    · exact ⟨_, hd, .inr ⟨by simp [parent, hroot], id⟩⟩
    · exact ⟨_, hd, .inl (parent_holds hroot)⟩

/-- If no root comes first, the first directory that the source is below is the first one that
it lies in. -/
theorem exists_find? (hmeets : ∃ d ∈ c.searchPath, d.Meets source) (h : ¬c.RootFirst source) :
    ∃ d, c.searchPath.find? (·.Holds source) = some d ∧
      c.searchPath.find? source.isBelow = some d := by
  obtain ⟨d, hd⟩ : ∃ d, c.searchPath.find? (·.Meets source) = some d := by
    rw [← Option.isSome_iff_exists, List.find?_isSome]
    simpa using hmeets
  have hroot : d.names ≠ [] := fun hroot => h ⟨d, hd, hroot⟩
  have hholds : d.Holds source := by
    have hfound : d.Meets source := by simpa using List.find?_some hd
    exact hfound.resolve_right fun ⟨hnames, _⟩ => hroot hnames
  refine ⟨d, find?_eq_some_of_imp hd (decide_eq_true hholds) ?_,
    find?_eq_some_of_imp hd (isBelow_iff.mpr (.inl ⟨hroot, hholds⟩)) ?_⟩
  · exact fun e he => decide_eq_true (.inl (of_decide_eq_true he))
  · intro e he
    obtain ⟨-, hholds⟩ | ⟨hnames, -, hsingle⟩ := isBelow_iff.mp he
    · exact decide_eq_true (.inl hholds)
    · exact decide_eq_true (.inr ⟨hnames, fun h => absurd h hsingle⟩)

/-- The name of a source in a directory that holds it. -/
theorem names_relativeTo (hsource : source.IsNormal)
    (hd : c.searchPath.find? (·.Holds source) = some d) :
    c.Names source (source.relativeTo d) := by
  have hholds : d.Holds source := by simpa using List.find?_some hd
  obtain ⟨rest, hrest, rfl, hname⟩ := hholds.relativeTo_eq
  rw [hname]
  exact ⟨d, rest, hd, rfl, rfl, join_intercalate d hrest, ofText_intercalate d hrest
    fun name h => hsource name (List.mem_append_right _ h)⟩

/-- A root that holds the source is the first directory that does, if it comes first of what the
source meets. -/
theorem find?_holds_of_rootFirst (hdoubled : source.doubled → root ∉ c.searchPath)
    (hnames : source.names ≠ []) (h : c.RootFirst source) :
    ∃ d, c.searchPath.find? (·.Holds source) = some d ∧ d.names = [] := by
  obtain ⟨d, hd, hroot⟩ := h
  have hsame : d.doubled = source.doubled := by
    have hfound : d.Meets source := by simpa using List.find?_some hd
    obtain hholds | ⟨-, himp⟩ := hfound
    · exact hholds.1
    · refine Bool.eq_iff_iff.mpr ⟨himp, fun h => ?_⟩
      by_contra hsingle
      exact hdoubled h (eq_root hroot hsingle ▸ List.mem_of_find?_eq_some hd)
  have hholds : d.Holds source := ⟨hsame, by simp [hroot], by simp [hroot, hnames.symm]⟩
  exact ⟨d, find?_eq_some_of_imp hd (decide_eq_true hholds)
    fun e he => decide_eq_true (.inl (of_decide_eq_true he)), hroot⟩

/-- A source that is called as it is in the first directory that it lies in does not lie in a
root first: what it is called in a root is longer than in any other directory. -/
theorem not_rootFirst (hsource : source.IsNormal)
    (hdoubled : source.doubled → root ∉ c.searchPath)
    (hd : c.searchPath.find? source.isBelow = some d)
    (h : c.Names source (source.relativeTo d)) : ¬c.RootFirst source := by
  intro hfirst
  obtain ⟨hnotroot, hholds⟩ | ⟨hroot, hsourcedoubled, hsingle⟩ :=
    isBelow_iff.mp (List.find?_some hd)
  · obtain ⟨rest, hrest, rfl, hname⟩ := hholds.relativeTo_eq
    obtain ⟨first, all, hfind, hall, htarget, -⟩ := h
    obtain ⟨e, he, heroot⟩ := find?_holds_of_rootFirst hdoubled (by simp [hrest]) hfirst
    obtain rfl := Option.some.inj (he.symm.trans hfind)
    rw [heroot, List.nil_append] at hall
    subst hall
    have hsame := intercalate_inj hrest (by simp [hrest])
      (fun name h => hsource name (List.mem_append_right _ h)) hsource (hname.symm.trans htarget)
    exact hnotroot (List.append_left_eq_self.mp hsame.symm)
  · exact hdoubled hsourcedoubled (eq_root hroot hsingle ▸ List.mem_of_find?_eq_some hd)

/-! ## Targets -/

/-- Compilation of sources as seen from a directory. The search path is that of the command: the
include paths, and then directories of sources. A compilation that succeeds gives each source in
turn its name as a target, if no root comes first in the search path; and it does so only then,
unless a path with two slashes is looked for in the root with one. -/
theorem names_targets (includes sources : List String) (hdirectory : directory.IsNormal)
    (hc : ofTexts directory includes sources = c) :
    (∃ added, added.Sublist (c.sources.map parent) ∧
      c.searchPath = includes.map (ofText directory) ++ added) ∧
    (∀ workspace, (c.command workspace).filter
        (fun argument => "-I".toList.isPrefixOf argument.toList) =
      c.searchPath.map fun d => "-I" ++ d.text) ∧
    ∃ targets, (∀ (α : Type) (declarations : α) invocation,
        c.outcome invocation (.written declarations) = .ok (declarations, targets)) ∧
      ((∀ source ∈ c.sources, ¬c.RootFirst source) → List.Forall₂ c.Names c.sources targets) ∧
      ((∀ source ∈ c.sources, source.doubled → root ∉ c.searchPath) →
        List.Forall₂ c.Names c.sources targets → ∀ source ∈ c.sources, ¬c.RootFirst source) := by
  have hnormal : ∀ source ∈ c.sources, source.IsNormal := by
    subst hc
    intro source hsource
    obtain ⟨text, -, rfl⟩ := List.mem_map.mp hsource
    exact ofText_isNormal hdirectory text
  refine ⟨?_, c.filter_command, c.targets, fun _ _ _ => rfl, fun h => ?_, fun hdoubled h => ?_⟩
  · subst hc
    exact foldl_extend _ _
  · refine forall₂_filterMap_iff.mpr fun source hsource => ?_
    have hmeets : ∃ d ∈ c.searchPath, d.Meets source := by
      subst hc
      exact exists_meets hsource
    obtain ⟨d, hholds, hbelow⟩ := exists_find? hmeets (h source hsource)
    exact ⟨_, by rw [hbelow]; rfl, names_relativeTo (hnormal source hsource) hholds⟩
  · intro source hsource
    obtain ⟨target, htarget, hname⟩ := forall₂_filterMap_iff.mp h source hsource
    obtain ⟨d, hd, rfl⟩ := Option.map_eq_some_iff.mp htarget
    exact not_rootFirst (hnormal source hsource) (hdoubled source hsource) hd hname

/-- Two files, one of them below an include path. -/
def libraryFiles : Compilation :=
  .ofTexts ⟨false, ["w"]⟩ ["protos"] ["protos/library/v1/library.proto", "loans/loans.proto"]

theorem names_libraryFiles :
    IsNormal ⟨false, ["w"]⟩ ∧
      List.Forall₂ libraryFiles.Names libraryFiles.sources
        ["library/v1/library.proto", "loans.proto"] := by
  have hdirectory : IsNormal ⟨false, ["w"]⟩ := by decide
  obtain ⟨-, -, targets, houtcome, hnames, -⟩ :=
    names_targets _ _ hdirectory (rfl : _ = libraryFiles)
  have htargets : libraryFiles.targets = targets :=
    congrArg Prod.snd (Except.ok.inj (houtcome Unit () ⟨.program, []⟩))
  have hlibrary : libraryFiles.targets = ["library/v1/library.proto", "loans.proto"] := by decide
  rw [← hlibrary, htargets]
  exact ⟨hdirectory, hnames (by decide)⟩

/-- A file in the root is no target if there are no include paths. -/
theorem not_forall_names :
    ¬∀ (directory : AbsolutePath) (includes sources : List String), directory.IsNormal →
      sources ≠ [] → ∃ targets,
        (∀ (α : Type) (declarations : α) invocation,
          (ofTexts directory includes sources).outcome invocation (.written declarations) =
            .ok (declarations, targets)) ∧
        List.Forall₂ (ofTexts directory includes sources).Names
          (ofTexts directory includes sources).sources targets := by
  intro h
  obtain ⟨targets, houtcome, hnames⟩ :=
    h ⟨false, ["w"]⟩ [] ["/a.proto"] (by decide) (List.cons_ne_nil _ _)
  have htargets : (ofTexts ⟨false, ["w"]⟩ [] ["/a.proto"]).targets = targets :=
    congrArg Prod.snd (Except.ok.inj (houtcome Unit () ⟨.program, []⟩))
  have hlost : (ofTexts ⟨false, ["w"]⟩ [] ["/a.proto"]).targets = [] := by decide
  rw [← htargets, hlost] at hnames
  exact absurd hnames.length_eq (by decide)

end Compilation

end HttpTranscoding
