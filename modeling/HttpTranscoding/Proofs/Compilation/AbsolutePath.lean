import HttpTranscoding.Compilation.AbsolutePath
import HttpTranscoding.Proofs.Text.Pieces
import Mathlib.Data.List.Infix

/-!
# Directories and what they hold

Which paths lie in a directory, how such a path is named there, and how near `isBelow`
comes to it: it misses the paths in a root, and takes paths with two slashes to be below the
root that has one (`isBelow_iff`).

Paths that are read from texts are in normal form (`ofText_isNormal`), and the name of a path
in a directory leads from there to the path (`join_intercalate`, `ofText_intercalate`).
-/

namespace HttpTranscoding.AbsolutePath

variable {p directory : AbsolutePath} {names rest : List String}

/-! ## Normal form -/

/-- What a directory or a file may be called. -/
def IsName (name : String) : Prop :=
  name ≠ "" ∧ name ≠ "." ∧ name ≠ ".." ∧ '/' ∉ name.toList

instance : DecidablePred IsName := fun _ => inferInstanceAs (Decidable (_ ∧ _))

def IsNormal (p : AbsolutePath) : Prop :=
  ∀ name ∈ p.names, IsName name

instance : DecidablePred IsNormal := fun _ => inferInstanceAs (Decidable (∀ _ ∈ _, _))

theorem descend_isName {component : String} (hnames : ∀ name ∈ names, IsName name)
    (hcomponent : '/' ∉ component.toList) : ∀ name ∈ descend names component, IsName name := by
  unfold descend
  split
  · exact hnames
  split
  · exact fun name hname => hnames name (List.mem_of_mem_dropLast hname)
  · rename_i hhere hup
    rw [Bool.or_eq_true, decide_eq_true_iff, decide_eq_true_iff, not_or] at hhere
    intro name hname
    obtain hname | hname := List.mem_append.mp hname
    · exact hnames name hname
    · obtain rfl := List.mem_singleton.mp hname
      exact ⟨hhere.1, hhere.2, hup, hcomponent⟩

theorem foldl_descend_isName {components : List String} (hnames : ∀ name ∈ names, IsName name)
    (hcomponents : ∀ component ∈ components, '/' ∉ component.toList) :
    ∀ name ∈ components.foldl descend names, IsName name := by
  induction components generalizing names with
  | nil => exact hnames
  | cons component components ih =>
    exact ih (descend_isName hnames (hcomponents _ List.mem_cons_self))
      fun other hother => hcomponents other (List.mem_cons_of_mem _ hother)

theorem walk_isName (hnames : ∀ name ∈ names, IsName name) (text : String) :
    ∀ name ∈ walk names text, IsName name := by
  refine foldl_descend_isName hnames fun component hcomponent => ?_
  obtain ⟨piece, hpiece, rfl⟩ := List.mem_map.mp hcomponent
  rw [String.toList_ofList]
  exact Text.not_mem_of_mem_splitOn hpiece

theorem ofText_isNormal (hdirectory : directory.IsNormal) (text : String) :
    (ofText directory text).IsNormal := by
  unfold ofText
  split
  · exact walk_isName (fun _ h => absurd h List.not_mem_nil) text
  · exact walk_isName hdirectory text

/-! ## Names in a directory -/

/-- The path of what is called `name` in the directory, as a text. -/
def join (directory : AbsolutePath) (name : String) : String :=
  (if directory.names = [] then directory.text else directory.text ++ "/") ++ name

theorem join_intercalate (directory : AbsolutePath) (hrest : rest ≠ []) :
    directory.join ("/".intercalate rest) =
      text ⟨directory.doubled, directory.names ++ rest⟩ := by
  unfold join text
  split
  · rename_i hroot
    rw [hroot]
    simp
  · rename_i hroot
    rw [String.intercalate_append_of_ne_nil hroot hrest]
    simp [String.append_assoc]

theorem descend_of_isName {name : String} (h : IsName name) :
    descend names name = names ++ [name] := by
  obtain ⟨hempty, hhere, hup, -⟩ := h
  simp [descend, hempty, hhere, hup]

theorem foldl_descend (hnames : ∀ name ∈ rest, IsName name) :
    rest.foldl descend names = names ++ rest := by
  induction rest generalizing names with
  | nil => simp
  | cons name rest ih =>
    rw [List.foldl_cons, descend_of_isName (hnames _ List.mem_cons_self),
      ih fun other hother => hnames other (List.mem_cons_of_mem _ hother)]
    simp

theorem walk_intercalate (hrest : rest ≠ []) (hnames : ∀ name ∈ rest, IsName name) :
    walk names ("/".intercalate rest) = names ++ rest := by
  have hslash : ∀ piece ∈ rest.map String.toList, '/' ∉ piece := by
    intro piece hpiece
    obtain ⟨name, hname, rfl⟩ := List.mem_map.mp hpiece
    exact (hnames name hname).2.2.2
  have hsplit : ("/".intercalate rest).toList.splitOn '/' = rest.map String.toList := by
    rw [String.toList_intercalate]
    exact List.splitOn_intercalate '/' hslash (by simpa using hrest)
  have hpieces : rest.map (String.ofList ∘ String.toList) = rest :=
    (List.map_congr_left fun _ _ => String.ofList_toList).trans rest.map_id
  rw [walk, hsplit, List.map_map, hpieces, foldl_descend hnames]

theorem intercalate_inj {other : List String} (hrest : rest ≠ []) (hother : other ≠ [])
    (hnames : ∀ name ∈ rest, IsName name) (hothers : ∀ name ∈ other, IsName name)
    (h : "/".intercalate rest = "/".intercalate other) : rest = other := by
  have hwalk := congrArg (walk []) h
  rwa [walk_intercalate hrest hnames, walk_intercalate hother hothers] at hwalk

theorem ofText_intercalate (directory : AbsolutePath) (hrest : rest ≠ [])
    (hnames : ∀ name ∈ rest, IsName name) :
    ofText directory ("/".intercalate rest) = ⟨directory.doubled, directory.names ++ rest⟩ := by
  have hhead : ("/".intercalate rest).toList.head? ≠ some '/' := by
    obtain ⟨name, others, rfl⟩ := List.exists_cons_of_ne_nil hrest
    obtain ⟨hempty, -, -, hslash⟩ := hnames name List.mem_cons_self
    obtain ⟨c, cs, hname⟩ := List.exists_cons_of_ne_nil (mt String.toList_eq_nil_iff.mp hempty)
    have hc : c ≠ '/' := fun h => hslash (by simp [hname, h])
    rw [String.toList_intercalate, List.map_cons, hname]
    cases others <;> simpa using hc
  rw [ofText, if_neg hhead, walk_intercalate hrest hnames]

/-! ## What lies in a directory -/

theorem eq_root (hnames : p.names = []) (hdoubled : ¬p.doubled) : p = root := by
  obtain ⟨doubled, names⟩ := p
  obtain rfl := Bool.eq_false_iff.mpr hdoubled
  obtain rfl := hnames
  rfl

/-- Whether `p` lies in the directory, or in one that lies there. -/
def Holds (directory p : AbsolutePath) : Prop :=
  directory.doubled = p.doubled ∧ directory.names <+: p.names ∧ directory.names ≠ p.names

instance (directory p : AbsolutePath) : Decidable (directory.Holds p) :=
  inferInstanceAs (Decidable (_ ∧ _))

theorem Holds.exists_rest (h : directory.Holds p) :
    ∃ rest, rest ≠ [] ∧ p = ⟨directory.doubled, directory.names ++ rest⟩ := by
  obtain ⟨doubled, names⟩ := p
  obtain ⟨rfl, ⟨rest, rfl⟩, hne⟩ := h
  exact ⟨rest, fun hrest => hne (by simp [hrest]), rfl⟩

theorem Holds.relativeTo_eq (h : directory.Holds p) :
    ∃ rest, rest ≠ [] ∧ p = ⟨directory.doubled, directory.names ++ rest⟩ ∧
      p.relativeTo directory = "/".intercalate rest := by
  obtain ⟨rest, hrest, rfl⟩ := h.exists_rest
  refine ⟨rest, hrest, rfl, ?_⟩
  unfold relativeTo
  rw [List.drop_left]
  cases rest with
  | nil => exact absurd rfl hrest
  | cons => rfl

/-- Every path but a root lies in its parent. -/
theorem parent_holds (h : p.names ≠ []) : p.parent.Holds p := by
  refine ⟨rfl, List.dropLast_prefix _, fun heq => ?_⟩
  have hlength := congrArg List.length heq
  have hpos := List.length_pos_of_ne_nil h
  simp only [parent, List.length_dropLast] at hlength
  omega

theorem isBelow_iff :
    p.isBelow directory ↔ directory.names ≠ [] ∧ directory.Holds p ∨
      directory.names = [] ∧ p.doubled ∧ ¬directory.doubled := by
  unfold isBelow Holds
  by_cases hroot : directory.names = []
  · simp [hroot]
  have hlength (hstarts : directory.names <+: p.names) :
      directory.names.length < p.names.length ↔ directory.names ≠ p.names := by
    refine ⟨fun hlt heq => absurd hlt (by simp [heq]), fun hne => ?_⟩
    exact hstarts.length_le.lt_of_ne fun heq => hne (hstarts.eq_of_length heq)
  simp only [hroot, if_false, Bool.and_eq_true, beq_iff_eq, decide_eq_true_eq,
    List.isPrefixOf_iff_prefix, false_and, or_false, ne_eq, not_false_eq_true, true_and]
  constructor
  · rintro ⟨⟨hdoubled, hlt⟩, hstarts⟩
    exact ⟨hdoubled.symm, hstarts, (hlength hstarts).mp hlt⟩
  · rintro ⟨hdoubled, hstarts, hne⟩
    exact ⟨⟨hdoubled.symm, (hlength hstarts).mpr hne⟩, hstarts⟩

end HttpTranscoding.AbsolutePath
