import HttpTranscoding.Proofs.Schema.Listing
import HttpTranscoding.Schema.Build

/-!
# What files declare

Where the messages and the methods of a list of files stand, and that they are collected in
the order of their addresses.

The address of a message begins with the index of its file and the index of a message of the
file, and goes on through indexes of nested messages (`FileDecl.MessageAt`). On the way there
the scope grows by the names of the messages around it, which gives the message its full name
(`MessageDecl.At`). The address of a method is made of the indexes of its file, its service
and the method itself (`FileDecl.MethodAt`), and `FileDecl.Locates` says where in the source
a method stands.

* `FileDecl.lists_declared`, `FileDecl.lists_sites`: messages and methods are collected in
  the order of their addresses.
-/

namespace HttpTranscoding

/-! ## Messages -/

namespace MessageDecl

/-- At the given address, a message that `scope` declares has itself or one nested in it. -/
inductive At (file : String) : (scope : String) → MessageDecl → List Nat → Declared → Prop
  | top {scope : String} {d : MessageDecl} :
    At file scope d [] ⟨Name.qualify scope d.name, file, d.mapEntry, d.fields⟩
  | nested {scope : String} {d inner : MessageDecl} {i : Nat} {a : List Nat} {x : Declared}
      (get : d.nested[i]? = some inner) (below : At file (Name.qualify scope d.name) inner a x) :
    At file scope d (i :: a) x

theorem declaredAll_eq (file scope : String) (ds : List MessageDecl) :
    declaredAll file scope ds = ds.flatMap (declared file scope) := by
  induction ds with
  | nil => rfl
  | cons d ds ih => rw [declaredAll, ih, List.flatMap_cons]

theorem declared_eq (file scope : String) (d : MessageDecl) :
    declared file scope d = ⟨Name.qualify scope d.name, file, d.mapEntry, d.fields⟩ ::
      d.nested.flatMap (declared file (Name.qualify scope d.name)) := by
  rw [← declaredAll_eq]
  cases d
  rfl

theorem at_iff {file scope : String} {d : MessageDecl} {a : List Nat} {x : Declared} :
    At file scope d a x ↔
      a = [] ∧ x = ⟨Name.qualify scope d.name, file, d.mapEntry, d.fields⟩ ∨
      ∃ i b inner, a = i :: b ∧ d.nested[i]? = some inner ∧
        At file (Name.qualify scope d.name) inner b x := by
  constructor
  · rintro (- | ⟨get, below⟩)
    · exact .inl ⟨rfl, rfl⟩
    · exact .inr ⟨_, _, _, rfl, get, below⟩
  · rintro (⟨rfl, rfl⟩ | ⟨i, b, inner, rfl, get, below⟩)
    · exact .top
    · exact .nested get below

/-- A message is collected before the messages nested in it, and these in order. -/
theorem lists_declared (file : String) : (d : MessageDecl) → (scope : String) →
    Lists (At file scope d) (declared file scope d)
  | ⟨name, mapEntry, fields, nested⟩, scope => by
    rw [declared_eq]
    have hinner : ∀ i inner, nested[i]? = some inner →
        Lists (At file (Name.qualify scope name) inner)
          (declared file (Name.qualify scope name) inner) := fun i inner hget =>
      have := List.sizeOf_lt_of_mem (List.mem_of_getElem? hget)
      lists_declared file inner _
    exact ((Lists.flatMap hinner).cons (by simp)).congr fun a x => at_iff.symm

end MessageDecl

namespace FileDecl

variable {files : List FileDecl} {targets : Option (List String)}

/-- The files have a message at the address, on its own or nested in another. -/
inductive MessageAt (files : List FileDecl) : List Nat → Declared → Prop
  | intro {f : FileDecl} {d : MessageDecl} {k i : Nat} {a : List Nat} {x : Declared}
      (file : files[k]? = some f) (message : f.messages[i]? = some d)
      (below : d.At f.name f.package a x) : MessageAt files (k :: i :: a) x

theorem messageAt_iff {a : List Nat} {x : Declared} :
    MessageAt files a x ↔ ∃ k b f, a = k :: b ∧ files[k]? = some f ∧
      ∃ i c d, b = i :: c ∧ f.messages[i]? = some d ∧ d.At f.name f.package c x := by
  constructor
  · rintro ⟨file, message, below⟩
    exact ⟨_, _, _, rfl, file, _, _, _, rfl, message, below⟩
  · rintro ⟨k, _, f, rfl, file, i, c, d, rfl, message, below⟩
    exact .intro file message below

/-- Messages are collected in the order of their addresses. -/
theorem lists_declared (files : List FileDecl) :
    Lists (MessageAt files) (files.flatMap declared) := by
  have hfile (f : FileDecl) : Lists (fun b x => ∃ i c d, b = i :: c ∧ f.messages[i]? = some d ∧
      d.At f.name f.package c x) f.declared := by
    rw [declared, MessageDecl.declaredAll_eq]
    exact Lists.flatMap fun i d _ => d.lists_declared f.name f.package
  exact (Lists.flatMap fun k f _ => hfile f).congr fun a x => messageAt_iff.symm

/-! ## Methods -/

/-- The place that the file gives for the declaration at `path`. That is the first position
with this path and three numbers or more, which counts lines and columns from 0; without
one, only the file and the name of the declared element are known. -/
inductive Locates (f : FileDecl) (path : List Int) (element : String) : Location → Prop
  | position {before after : List SourceSpan} {line column : Int} {rest : List Int}
      (split : f.spans = before ++ ⟨path, line :: column :: rest⟩ :: after) (long : rest ≠ [])
      (first : ∀ s ∈ before, s.path = path → s.span.length < 3) :
    Locates f path element ⟨f.name, some (line + 1), some (column + 1), element⟩
  | nowhere (short : ∀ s ∈ f.spans, s.path = path → s.span.length < 3) :
    Locates f path element ⟨f.name, none, none, element⟩

theorem locates_iff {f : FileDecl} {path : List Int} {element : String} {l : Location} :
    f.Locates path element l ↔ f.locate path element = l := by
  unfold locate
  constructor
  · rintro (⟨split, long, first⟩ | short)
    · rw [List.find?_eq_some_iff_append.mpr ⟨?_, _, _, split, fun s hs => ?_⟩]
      · simp [Nat.one_le_iff_ne_zero, long]
      · simpa [imp_iff_not_or] using first s hs
    · rw [List.find?_eq_none.mpr fun s hs => by simpa using short s hs]
      rfl
  · rintro rfl
    cases h : f.spans.find? fun s => s.path = path && 3 ≤ s.span.length with
    | none => exact .nowhere fun s hs => by simpa using List.find?_eq_none.mp h s hs
    | some s =>
      obtain ⟨hs, before, after, split, first⟩ := List.find?_eq_some_iff_append.mp h
      obtain ⟨_, span⟩ := s
      simp only [Bool.and_eq_true, decide_eq_true_eq] at hs
      obtain ⟨rfl, hlength⟩ := hs
      match span, hlength with
      | line :: column :: _ :: _, _ =>
        exact .position split (by simp) fun s hs => by simpa [imp_iff_not_or] using first s hs

/-- Whether the file is one of those whose methods are of interest. -/
def Targeted (targets : Option (List String)) (f : FileDecl) : Prop :=
  ∀ names ∈ targets, f.name ∈ names

/-- The full name of a method that a file declares in the service. -/
def methodName (f : FileDecl) (service : ServiceDecl) (decl : MethodDecl) : String :=
  Name.qualify f.package service.name ++ "." ++ decl.name

/-- The targeted files among `files` declare a method at the address, which is made of the
indexes of its file, of a service of the file and of a method of the service. -/
inductive MethodAt (files : List FileDecl) (targets : Option (List String)) :
    List Nat → MethodSite → Prop
  | intro {f : FileDecl} {service : ServiceDecl} {decl : MethodDecl} {location : Location}
      {k i j : Nat} (file : files[k]? = some f) (targeted : f.Targeted targets)
      (get : f.services[i]? = some service) (method : service.methods[j]? = some decl)
      (located : f.Locates [6, i, 2, j] (f.methodName service decl) location) :
    MethodAt files targets [k, i, j] ⟨f.methodName service decl, decl, location⟩

theorem methodAt_iff {a : List Nat} {site : MethodSite} :
    MethodAt files targets a site ↔ ∃ k b f, a = k :: b ∧ files[k]? = some f ∧
      (f.Targeted targets ∧ ∃ i c service, b = i :: c ∧ f.services[i]? = some service ∧
        ∃ j decl, c = [j] ∧ service.methods[j]? = some decl ∧
          site = ⟨f.methodName service decl, decl,
            f.locate [6, i, 2, j] (f.methodName service decl)⟩) := by
  constructor
  · rintro ⟨file, targeted, get, method, located⟩
    exact ⟨_, _, _, rfl, file, targeted, _, _, _, rfl, get, _, _, rfl, method,
      by rw [locates_iff.mp located]⟩
  · rintro ⟨k, _, f, rfl, file, targeted, i, _, service, rfl, get, j, decl, rfl, method, rfl⟩
    exact .intro file targeted get method (locates_iff.mpr rfl)

theorem lists_sites_of_service (f : FileDecl) (i : Nat) (service : ServiceDecl) :
    Lists (fun b site => ∃ j decl, b = [j] ∧ service.methods[j]? = some decl ∧
      site = ⟨f.methodName service decl, decl,
        f.locate [6, i, 2, j] (f.methodName service decl)⟩) (service.sites f i) :=
  Lists.zipIdx_map (fun p : MethodDecl × Nat => (⟨f.methodName service p.1, p.1,
    f.locate [6, i, 2, p.2] (f.methodName service p.1)⟩ : MethodSite))

theorem lists_sites_of_file (f : FileDecl) :
    Lists (fun b site => ∃ i c service, b = i :: c ∧ f.services[i]? = some service ∧
      ∃ j decl, c = [j] ∧ service.methods[j]? = some decl ∧
        site = ⟨f.methodName service decl, decl,
          f.locate [6, i, 2, j] (f.methodName service decl)⟩) f.sites :=
  Lists.zipIdx_flatMap fun i service _ => lists_sites_of_service f i service

instance (targets : Option (List String)) (f : FileDecl) : Decidable (f.Targeted targets) :=
  inferInstanceAs (Decidable (∀ names ∈ targets, f.name ∈ names))

theorem targets_eq (files : List FileDecl) (targets : Option (List String)) :
    FileDecl.targets files targets = files.filter (·.Targeted targets) := by
  cases targets <;> simp [FileDecl.targets, Targeted]

theorem flatMap_filter_sites (p : FileDecl → Bool) (files : List FileDecl) :
    (files.filter p).flatMap sites = files.flatMap fun f => if p f then f.sites else [] := by
  induction files with
  | nil => rfl
  | cons f rest ih => cases h : p f <;> simp [h, ih]

/-- The methods of the targeted files are collected in the order of their addresses. -/
theorem lists_sites (files : List FileDecl) (targets : Option (List String)) :
    Lists (MethodAt files targets) ((FileDecl.targets files targets).flatMap sites) := by
  rw [targets_eq, flatMap_filter_sites]
  refine (Lists.flatMap fun k f _ => ?_).congr fun a site => methodAt_iff.symm
  by_cases h : f.Targeted targets
  · simpa [h] using lists_sites_of_file f
  · simpa [h] using Lists.nil (by simp)

end FileDecl

end HttpTranscoding
