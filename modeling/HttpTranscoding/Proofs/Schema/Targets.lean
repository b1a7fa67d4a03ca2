import HttpTranscoding.Proofs.Schema.Resolution
import HttpTranscoding.Proofs.Validator.Congruence

/-!
# Fewer files of interest

When only some of the files are of interest, their schema is that of all files without the
methods of the others (`Schema.restrict`). The other files still supply messages, and a method
keeps its place in the source: the indexes in its address are those of the whole list of files.

* `Schema.build_restrict`: the schema of files of interest, and what its validation finds.
-/

namespace HttpTranscoding

variable {files : List FileDecl} {s : Schema}

/-! ## Methods and their files -/

namespace FileDecl

variable {f : FileDecl}

theorem Locates.file_eq {path : List Int} {element : String} {l : Location}
    (h : f.Locates path element l) : l.file = f.name := by
  cases h <;> rfl

/-- A method stands in the file that declares it. -/
theorem file_of_mem_sites {site : MethodSite} (h : site ∈ f.sites) :
    site.location.file = f.name := by
  obtain ⟨_, i, _, service, -, -, j, decl, -, -, rfl⟩ := (lists_sites_of_file f).mem_iff.mp h
  exact (locates_iff.mpr rfl).file_eq

/-- The methods of interest are those that stand in a file of interest. -/
theorem sites_targets (files : List FileDecl) (names : List String) :
    (targets files (some names)).flatMap sites =
      ((targets files none).flatMap sites).filter (·.location.file ∈ names) := by
  rw [targets, targets, flatMap_filter_sites, List.filter_flatMap]
  refine List.flatMap_congr fun f _ => ?_
  by_cases hname : f.name ∈ names
  · have hall : f.sites.filter (·.location.file ∈ names) = f.sites :=
      List.filter_eq_self.mpr fun site hsite => by simpa [file_of_mem_sites hsite] using hname
    simp [hname, hall]
  · have hnone : f.sites.filter (·.location.file ∈ names) = [] :=
      List.filter_eq_nil_iff.mpr fun site hsite => by simpa [file_of_mem_sites hsite] using hname
    simp [hname, hnone]

end FileDecl

theorem MethodSite.location_of_resolve {ds : List Declared} {site : MethodSite} {method : Method}
    (h : resolve ds site = .ok method) : method.location = site.location := by
  obtain ⟨input, output, -, -, rfl⟩ := resolve_eq_ok_iff.mp h
  rfl

/-- Methods are resolved one by one, so those that stand elsewhere can be left out before
or after. -/
theorem MethodSite.mapM_resolve_filter {ds : List Declared} {sites : List MethodSite}
    {methods : List Method} (h : sites.mapM (resolve ds) = .ok methods) (names : List String) :
    (sites.filter (·.location.file ∈ names)).mapM (resolve ds) =
      .ok (methods.filter (·.location.file ∈ names)) := by
  rw [mapM_eq_ok_iff] at h ⊢
  refine List.rel_filter (fun site method hmethod => ?_) h
  simp only [location_of_resolve hmethod]

/-! ## The schema of the files of interest -/

namespace Schema

/-- The schema without the methods of other files than the named ones. -/
def restrict (s : Schema) (names : List String) : Schema where
  messages := s.messages
  methods := s.methods.filter (·.location.file ∈ names)
  targets := s.targets.filter (· ∈ names)

/-- The schema of all files is cut down to that of the files of interest. -/
theorem build_some_of_none (h : build files none = .ok s) (names : List String) :
    build files (some names) = .ok (s.restrict names) := by
  obtain ⟨hmessages, hmethods, htargets⟩ := build_eq_ok_iff.mp h
  refine build_eq_ok_iff.mpr ⟨hmessages, ?_, ?_⟩
  · rw [FileDecl.sites_targets]
    exact MethodSite.mapM_resolve_filter hmethods names
  · rw [restrict, htargets, FileDecl.targets, FileDecl.targets, List.filter_map]
    rfl

/-- To name the files of interest leaves out the methods of the other files, and nothing else.
If a schema of all files is built, so is that of the files named: with the same messages, with
the names that files have among those named, and with those of the methods that stand in these
files. A method of either schema is made of a declaration in the file at an index of all files,
which gives it its place. Methods are validated by one schema as they are by the other. -/
theorem build_restrict (h : build files none = .ok s) (names : List String) :
    ∃ s', build files (some names) = .ok s' ∧ s'.messages = s.messages ∧
      s'.targets = (files.map (·.name)).filter (· ∈ names) ∧
      s'.methods = s.methods.filter (·.location.file ∈ names) ∧
      Lists (fun a method => ∃ site, FileDecl.MethodAt files none a site ∧
        site.Resolved s method) s.methods ∧
      Lists (fun a method => ∃ site, FileDecl.MethodAt files (some names) a site ∧
        site.Resolved s' method) s'.methods ∧
      ∀ o method given r, (Validator.run ⟨s', o⟩ method given).run r =
        (Validator.run ⟨s, o⟩ method given).run r := by
  have hbuild := build_some_of_none h names
  have htargets : s.targets = files.map (·.name) := (build_eq_ok_iff.mp h).2.2
  refine ⟨s.restrict names, hbuild, rfl, by rw [restrict, htargets], rfl,
    (resolves_of_build h).methods, (resolves_of_build hbuild).methods, fun o method given r => ?_⟩
  have hrun : Validator.run ⟨s.restrict names, o⟩ = Validator.run ⟨s, o⟩ := Validator.run_congr rfl
  rw [hrun]

/-! ## Loans without the people -/

def personFile : FileDecl where
  name := "people.proto"
  package := "v1"
  messages := [⟨"Person", false, [⟨"name", 1, .string, false, ""⟩], []⟩]
  services := [⟨"People", [⟨"GetPerson", ".v1.Person", ".v1.Person", none⟩]⟩]
  spans := []

/-- Loans are made to people. The source gives a place for the method. -/
def loanFile : FileDecl where
  name := "loans.proto"
  package := "v1"
  messages := [⟨"Loan", false, [⟨"person", 1, .message, false, ".v1.Person"⟩], []⟩]
  services := [⟨"Loans", [⟨"GetLoan", ".v1.Loan", ".v1.Loan", none⟩]⟩]
  spans := [⟨[6, 0, 2, 0], [7, 2, 40]⟩]

/-- A file that shares its name with another. -/
def loanListFile : FileDecl where
  name := "loans.proto"
  package := "v2"
  messages := []
  services := [⟨"Loans", [⟨"ListLoans", ".v1.Loan", ".v1.Loan", none⟩]⟩]
  spans := []

def loanSchema : Schema where
  messages := [
    ⟨"v1.Person", "people.proto", false, [⟨"v1.Person", 0, "name", 1, ⟨.string, false, none⟩⟩]⟩,
    ⟨"v1.Loan", "loans.proto", false,
      [⟨"v1.Loan", 0, "person", 1, ⟨.message, false, some ⟨"v1.Person", false⟩⟩⟩]⟩]
  methods := [
    ⟨"v1.People.GetPerson", ⟨"v1.Person", false⟩, ⟨"v1.Person", false⟩, none,
      ⟨"people.proto", none, none, "v1.People.GetPerson"⟩⟩,
    ⟨"v1.Loans.GetLoan", ⟨"v1.Loan", false⟩, ⟨"v1.Loan", false⟩, none,
      ⟨"loans.proto", some 8, some 3, "v1.Loans.GetLoan"⟩⟩,
    ⟨"v2.Loans.ListLoans", ⟨"v1.Loan", false⟩, ⟨"v1.Loan", false⟩, none,
      ⟨"loans.proto", none, none, "v2.Loans.ListLoans"⟩⟩]
  targets := ["people.proto", "loans.proto", "loans.proto"]

/-- Both files named have their methods in the schema, which keeps the message of the other. -/
theorem build_loans :
    build [personFile, loanFile, loanListFile] none = .ok loanSchema ∧
    ∃ s', build [personFile, loanFile, loanListFile] (some ["loans.proto"]) = .ok s' ∧
      s'.messages = loanSchema.messages ∧ s'.targets = ["loans.proto", "loans.proto"] ∧
      s'.methods = loanSchema.methods.drop 1 := by
  have hall : build [personFile, loanFile, loanListFile] none = .ok loanSchema := rfl
  obtain ⟨s', hbuild, hmessages, htargets, hmethods, -⟩ := build_restrict hall ["loans.proto"]
  exact ⟨hall, s', hbuild, hmessages, htargets, hmethods⟩

end Schema

end HttpTranscoding
