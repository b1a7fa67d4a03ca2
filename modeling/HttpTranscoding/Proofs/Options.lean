import HttpTranscoding.Options
import HttpTranscoding.Proofs.Except
import HttpTranscoding.Proofs.Text.Pieces

/-!
# Where the names of allowed fields come from

Options only ever take names in, so they are known by what they have taken in, in whatever order
and however often. A name gets the same whether it is written between the commas of the
environment variable or given by itself, unless it has commas or blanks that are lost there.

* `mem_foldl_allow_ofEnvironment`, `foldl_allow_ofEnvironment_congr`: the options as a union;
* `listed_of_lists`: what is read from a text that lists names;
* `allow_ofEnvironment_of_divided`: the options do not tell how names were divided between the
  environment and the command line.
-/

namespace HttpTranscoding.Options

/-! ## The union of all sources -/

section Union

variable {o o' : Options} {names : List String} {n : String}

theorem ext_of_mem_iff (h : ∀ n, n ∈ o.allowed ↔ n ∈ o'.allowed) : o = o' := by
  have hallowed : o.allowed = o'.allowed := Std.ExtTreeSet.ext_mem h
  cases o
  cases o'
  exact congrArg mk hallowed

theorem mem_allow : n ∈ (o.allow names).allowed ↔ n ∈ o.allowed ∨ n ∈ names := by
  unfold allow
  induction names generalizing o with
  | nil => simp
  | cons name rest ih =>
    have hnext := ih (o := ⟨o.allowed.insert name⟩)
    simp only [List.foldl_cons, List.mem_cons] at hnext ⊢
    rw [hnext, NameSet.mem_insert]
    tauto

theorem mem_foldl_allow {lists : List (List String)} :
    n ∈ (lists.foldl allow o).allowed ↔ n ∈ o.allowed ∨ ∃ names ∈ lists, n ∈ names := by
  induction lists generalizing o with
  | nil => simp
  | cons names rest ih =>
    rw [List.foldl_cons, ih, mem_allow, or_assoc, List.exists_mem_cons_iff]

theorem mem_default : n ∈ default.allowed ↔ n ∈ builtIn := by
  have hempty : default = allow ⟨∅⟩ builtIn := rfl
  rw [hempty, mem_allow]
  simp

theorem allow_append (o : Options) (names more : List String) :
    o.allow (names ++ more) = (o.allow names).allow more := by
  unfold allow
  rw [List.foldl_append]

/-- Options that the same names are added to stay equal. -/
theorem allow_append_congr {names' : List String} (h : o.allow names = o'.allow names')
    (more : List String) : o.allow (names ++ more) = o'.allow (names' ++ more) := by
  rw [allow_append, allow_append, h]

/-- The names that a text lists are its pieces without the blanks around them, except for those
of which nothing is left. -/
theorem mem_listed {text : String} : n ∈ listed text ↔
    n ≠ "" ∧ ∃ piece ∈ text.toList.splitOn ',', n = String.ofList (Text.strip piece) := by
  simp only [listed, List.mem_filter, List.mem_map, decide_eq_true_eq, eq_comm (a := n), and_comm]

variable {lookup lookup' : String → Option String} {lists lists' : List (List String)}

theorem mem_foldl_allow_ofEnvironment :
    n ∈ (lists.foldl allow (ofEnvironment lookup)).allowed ↔ n ∈ builtIn ∨
      n ∈ listed ((lookup variableName).getD "") ∨ ∃ names ∈ lists, n ∈ names := by
  rw [mem_foldl_allow, ofEnvironment, mem_allow, mem_default, or_assoc]

/-- Sources that have the same names between them give the same options. -/
theorem foldl_allow_ofEnvironment_congr
    (h : ∀ n, n ∈ listed ((lookup variableName).getD "") ++ lists.flatten ↔
      n ∈ listed ((lookup' variableName).getD "") ++ lists'.flatten) :
    lists.foldl allow (ofEnvironment lookup) = lists'.foldl allow (ofEnvironment lookup') := by
  refine ext_of_mem_iff fun n => ?_
  have hn := h n
  simp only [List.mem_append, List.mem_flatten] at hn
  rw [mem_foldl_allow_ofEnvironment, mem_foldl_allow_ofEnvironment, hn]

end Union

/-! ## Texts that list names -/

/-- The names that are read from a list as they are: they have no commas, and neither begin nor
end with a blank. -/
structure Listable (name : String) : Prop where
  ne_empty : name ≠ ""
  comma_not_mem : ',' ∉ name.toList
  first : ¬name.toList.head?.any Text.isBlank
  last : ¬name.toList.getLast?.any Text.isBlank

/-- The piece is the name with nothing but blanks around it. -/
def Pads (piece name : String) : Prop :=
  ∃ before after : String, before.toList.all Text.isBlank ∧ after.toList.all Text.isBlank ∧
    piece = before ++ name ++ after

/-- The text lists the names in this order: between its commas there are the names, with any
blanks around them, and also pieces of blanks alone. -/
def Lists (text : String) (names : List String) : Prop :=
  ∃ pieces entries, text = ",".intercalate pieces ∧ List.Forall₂ Pads pieces entries ∧
    names = entries.filter (· ≠ "")

theorem comma_not_mem_of_all_isBlank {text : String} (h : text.toList.all Text.isBlank) :
    ',' ∉ text.toList := fun hcomma =>
  absurd (List.all_eq_true.mp h ',' hcomma) (by decide)

section Lists

variable {text piece name : String} {names : List String}

/-- From pieces without commas that are joined by commas, the pieces are read. -/
theorem listed_intercalate {pieces : List String} (h : ∀ piece ∈ pieces, ',' ∉ piece.toList) :
    listed (",".intercalate pieces) = (pieces.map Text.stripped).filter (· ≠ "") := by
  by_cases hnil : pieces = []
  · subst hnil
    decide
  · have hsplit : ([','].intercalate (pieces.map String.toList)).splitOn ',' =
        pieces.map String.toList :=
      List.splitOn_intercalate ',' (by simpa using h) (by simpa using hnil)
    rw [listed, String.toList_intercalate]
    refine congrArg (List.filter (· ≠ "")) ?_
    exact (congrArg (List.map fun piece => String.ofList (Text.strip piece)) hsplit).trans
      (List.map_map ..)

theorem comma_not_mem_of_pads (h : Pads piece name) (hname : name ≠ "" → Listable name) :
    ',' ∉ piece.toList := by
  obtain ⟨before, after, hbefore, hafter, rfl⟩ := h
  simp only [String.toList_append, List.mem_append, not_or]
  refine ⟨⟨comma_not_mem_of_all_isBlank hbefore, fun hc => ?_⟩,
    comma_not_mem_of_all_isBlank hafter⟩
  have hne : name ≠ "" := by
    rintro rfl
    simp at hc
  exact (hname hne).comma_not_mem hc

theorem stripped_of_pads (h : Pads piece name) (hname : name ≠ "" → Listable name) :
    Text.stripped piece = name := by
  obtain ⟨before, after, hbefore, hafter, rfl⟩ := h
  rw [List.all_eq_true] at hbefore hafter
  by_cases hne : name = ""
  · subst hne
    exact Text.stripped_append hbefore hafter (by simp) (by simp)
  · refine Text.stripped_append hbefore hafter (fun c hc => ?_) fun c hc => ?_
    · simpa [hc] using (hname hne).first
    · simpa [hc] using (hname hne).last

/-- From a text that lists names, just these are read. -/
theorem listed_of_lists (h : Lists text names) (hnames : ∀ n ∈ names, Listable n) :
    listed text = names := by
  obtain ⟨pieces, entries, rfl, hpads, rfl⟩ := h
  have hentries : ∀ e ∈ entries, e ≠ "" → Listable e := fun e he hne =>
    hnames e (List.mem_filter.mpr ⟨he, decide_eq_true hne⟩)
  have hcomma : ∀ piece ∈ pieces, ',' ∉ piece.toList := fun piece hpiece => by
    obtain ⟨e, he, hpad⟩ := exists_mem_right hpads hpiece
    exact comma_not_mem_of_pads hpad (hentries e he)
  have hstripped : pieces.map Text.stripped = entries := by
    clear hcomma hnames
    induction hpads with
    | nil => rfl
    | cons hpad _ ih =>
      rw [List.forall_mem_cons] at hentries
      rw [List.map_cons, stripped_of_pads hpad hentries.1, ih hentries.2]
  rw [listed_intercalate hcomma, hstripped]

end Lists

/-! ## The environment and the command line -/

/-- The names are divided between the environment and the command line: the variable lists some
of them and the flags have the others. A name may be given more than once. -/
def Divided (lookup : String → Option String) (flags names : List String) : Prop :=
  ∃ inVariable, Lists ((lookup variableName).getD "") inVariable ∧
    ∀ n, n ∈ names ↔ n ∈ inVariable ∨ n ∈ flags

/-- However names are divided, the options are the default ones with all of them added. -/
theorem allow_ofEnvironment_of_divided {lookup : String → Option String}
    {flags names : List String} (h : Divided lookup flags names)
    (hnames : ∀ n ∈ names, Listable n) :
    (ofEnvironment lookup).allow flags = default.allow names := by
  obtain ⟨inVariable, hlists, hmem⟩ := h
  refine ext_of_mem_iff fun n => ?_
  rw [ofEnvironment, listed_of_lists hlists fun n hn => hnames n ((hmem n).mpr (.inl hn)),
    mem_allow, mem_allow, mem_allow, or_assoc, hmem]

end HttpTranscoding.Options
