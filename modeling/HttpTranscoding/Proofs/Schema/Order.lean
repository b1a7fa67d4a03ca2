import HttpTranscoding.Proofs.Schema.Resolution
import HttpTranscoding.Proofs.Validator.Congruence
import Mathlib.Data.List.Perm.Basic

/-!
# The order of files

Files may be given in any order if no two messages have one name (`FileDecl.DistinctNames`). A
name is then looked up with the same result wherever its message is declared, so each message
and each method becomes the same, and only the files change places in the schema
(`Schema.Reordered`). A validation reads no more of a schema than what its names stand for, and
finds the same of each file.

* `Schema.build_perm`: schemas of reordered files, and what their validation finds.
-/

namespace HttpTranscoding

variable {files files' : List FileDecl} {targets : Option (List String)} {s s' : Schema}

/-! ## Lists without repeated keys -/

section Keys

variable {α : Type} {items items' : List α} {key : α → String}

/-- Where keys are not repeated, what is found under a key is the item that has it. -/
theorem findRev?_key_eq_some_iff (h : (items.map key).Nodup) {name : String} {x : α} :
    items.findRev? (key · = name) = some x ↔ x ∈ items ∧ key x = name := by
  rw [List.findRev?_eq_find?_reverse]
  constructor
  · exact fun hx => ⟨List.mem_reverse.mp (List.mem_of_find?_eq_some hx), by
      simpa using List.find?_some hx⟩
  · rintro ⟨hx, rfl⟩
    cases hfound : items.reverse.find? (key · = key x) with
    | none => simpa using List.find?_eq_none.mp hfound x (List.mem_reverse.mpr hx)
    | some y =>
      have hy : y ∈ items := List.mem_reverse.mp (List.mem_of_find?_eq_some hfound)
      have hkey : key y = key x := by simpa using List.find?_some hfound
      rw [List.inj_on_of_nodup_map h hy hx hkey]

theorem findRev?_key_perm (hperm : items.Perm items') (h : (items.map key).Nodup) (name : String) :
    items.findRev? (key · = name) = items'.findRev? (key · = name) := by
  have h' : (items'.map key).Nodup := (hperm.map key).nodup_iff.mp h
  ext x
  rw [findRev?_key_eq_some_iff h, findRev?_key_eq_some_iff h', hperm.mem_iff]

end Keys

/-! ## Names in any order -/

namespace FileDecl

/-- Messages that the files declare at different addresses have different full names. -/
def DistinctNames (files : List FileDecl) : Prop :=
  ∀ a b x y, MessageAt files a x → MessageAt files b y → x.fullName = y.fullName → a = b

theorem distinctNames_iff :
    DistinctNames files ↔ ((files.flatMap declared).map (·.fullName)).Nodup :=
  (lists_declared files).nodup_map_iff.symm

theorem targets_perm (hperm : files.Perm files') (targets : Option (List String)) :
    (FileDecl.targets files targets).Perm (FileDecl.targets files' targets) := by
  rw [targets_eq, targets_eq]
  exact hperm.filter _

end FileDecl

section Lookup

variable {ds ds' : List Declared}

theorem Declared.lookup?_perm (hperm : ds.Perm ds') (h : (ds.map (·.fullName)).Nodup) :
    lookup? ds = lookup? ds' := by
  funext reference
  unfold lookup?
  rw [findRev?_key_perm hperm h]

theorem Declared.resolve_congr (h : lookup? ds = lookup? ds') : resolve ds = resolve ds' := by
  funext x
  rw [resolve_eq, resolve_eq]
  unfold resolveField fieldType
  rw [h]

theorem MethodSite.resolve_congr (h : Declared.lookup? ds = Declared.lookup? ds') :
    resolve ds = resolve ds' := by
  funext site
  unfold resolve
  rw [h]

end Lookup

/-! ## Methods file by file -/

/-- The methods that a file declares, if their inputs and outputs are all among `ds`. -/
def FileDecl.methods (ds : List Declared) (f : FileDecl) : List Method :=
  (f.sites.mapM (MethodSite.resolve ds)).toOption.getD []

/-- Methods are resolved file by file. -/
theorem FileDecl.eq_flatMap_methods {ds : List Declared} {methods : List Method}
    (h : (files.flatMap sites).mapM (MethodSite.resolve ds) = .ok methods) :
    methods = files.flatMap (FileDecl.methods ds) ∧
      ∀ f ∈ files, f.sites.mapM (MethodSite.resolve ds) = .ok (f.methods ds) := by
  induction files generalizing methods with
  | nil => simpa [pure, Except.pure, eq_comm] using h
  | cons f rest ih =>
    rw [List.flatMap_cons, List.mapM_append] at h
    obtain ⟨first, hfirst, h⟩ := bind_eq_ok_iff.mp h
    obtain ⟨others, hothers, h⟩ := bind_eq_ok_iff.mp h
    obtain rfl := Except.ok.inj h
    obtain ⟨hrest, hmem⟩ := ih hothers
    have hf : f.methods ds = first := by simp [FileDecl.methods, hfirst, Except.toOption]
    exact ⟨by rw [List.flatMap_cons, hf, ← hrest], List.forall_mem_cons.mpr ⟨hf ▸ hfirst, hmem⟩⟩

/-! ## Schemas of reordered files -/

namespace Schema

/-- The schemas have the same messages under all names. They have the methods of the files,
those of each file in one block, in the orders `files` and `files'`. -/
structure Reordered (s s' : Schema) (files files' : List FileDecl)
    (block : FileDecl → List Method) : Prop where
  message? : ∀ name, s'.message? name = s.message? name
  perm : files.Perm files'
  sites : ∀ f ∈ files, List.Forall₂ (MethodSite.Resolved s) f.sites (block f)
  methods : s.methods = files.flatMap block
  methods' : s'.methods = files'.flatMap block

theorem Reordered.fieldsOf {block : FileDecl → List Method}
    (h : s.Reordered s' files files' block) : s'.fieldsOf = s.fieldsOf := by
  funext name
  unfold Schema.fieldsOf
  rw [h.message?]

theorem exists_build_perm (hperm : files.Perm files') (hdistinct : FileDecl.DistinctNames files)
    (targets : Option (List String)) :
    (∃ s, build files targets = .ok s) ↔ ∃ s, build files' targets = .ok s := by
  have hds := hperm.flatMap_right FileDecl.declared
  have hsites := (FileDecl.targets_perm hperm targets).flatMap_right FileDecl.sites
  have hlookup := Declared.lookup?_perm hds (FileDecl.distinctNames_iff.mp hdistinct)
  simp only [exists_build_iff_forall_mem, ← Declared.resolve_congr hlookup,
    ← MethodSite.resolve_congr hlookup, hds.mem_iff, hsites.mem_iff]

theorem message?_perm (hperm : files.Perm files') (hdistinct : FileDecl.DistinctNames files)
    (h : build files targets = .ok s) (h' : build files' targets = .ok s') (name : String) :
    s'.message? name = s.message? name := by
  have hds := hperm.flatMap_right FileDecl.declared
  have hnodup := FileDecl.distinctNames_iff.mp hdistinct
  have hmessages := (build_eq_ok_iff.mp h).1
  have hmessages' := (build_eq_ok_iff.mp h').1
  -- In both orders a declaration becomes the same message, as names are looked up alike.
  rw [← Declared.resolve_congr (Declared.lookup?_perm hds hnodup)] at hmessages'
  have hsame : s.messages.Perm s'.messages := perm_of_mapM hds hmessages hmessages'
  have hnames :
      (files.flatMap FileDecl.declared).map (·.fullName) = s.messages.map (·.fullName) := by
    rw [← List.forall₂_eq_eq_eq, List.forall₂_map_left_iff, List.forall₂_map_right_iff]
    exact (mapM_eq_ok_iff.mp hmessages).imp fun x m hm =>
      (Declared.resolve_eq_ok_iff.mp hm).1.symm
  exact (findRev?_key_perm hsame (hnames ▸ hnodup) name).symm

theorem exists_reordered (hperm : files.Perm files') (hdistinct : FileDecl.DistinctNames files)
    (h : build files targets = .ok s) (h' : build files' targets = .ok s') :
    ∃ block, s.Reordered s' (FileDecl.targets files targets) (FileDecl.targets files' targets)
      block := by
  have hds := hperm.flatMap_right FileDecl.declared
  have hmethods' := (build_eq_ok_iff.mp h').2.1
  rw [← MethodSite.resolve_congr
    (Declared.lookup?_perm hds (FileDecl.distinctNames_iff.mp hdistinct))] at hmethods'
  obtain ⟨hmessages, hmethods, -⟩ := build_eq_ok_iff.mp h
  obtain ⟨hblocks, hsites⟩ := FileDecl.eq_flatMap_methods hmethods
  refine ⟨FileDecl.methods (files.flatMap FileDecl.declared), message?_perm hperm hdistinct h h',
    FileDecl.targets_perm hperm targets, fun f hf => ?_, hblocks,
    (FileDecl.eq_flatMap_methods hmethods').1⟩
  exact (mapM_eq_ok_iff.mp (hsites f hf)).imp fun site method hmethod =>
    MethodSite.resolved_of_resolve (Declared.lookup?_eq (mapM_eq_ok_iff.mp hmessages)) hmethod

end Schema

/-! ## Validation file by file -/

namespace Validator

variable {v : Validator} {o : Options} {block : FileDecl → List Method}

theorem validateMethods_append_eq (v : Validator) (before after : List Method) :
    v.validateMethods (before ++ after) = (do
      v.validateMethods before
      v.validateMethods after) := by
  induction before with
  | nil => simp [validateMethods]
  | cons m rest ih => simp [validateMethods, ih]

theorem validateMethods_flatMap (v : Validator) (files : List FileDecl) :
    v.validateMethods (files.flatMap block) = files.forM fun f => v.validateMethods (block f) := by
  induction files with
  | nil => rfl
  | cons f rest ih =>
    rw [List.flatMap_cons, validateMethods_append_eq, ih]
    rfl

theorem findings_flatMap (v : Validator) (files : List FileDecl) :
    v.findings (files.flatMap block) = files.flatMap fun f => v.findings (block f) :=
  List.flatMap_assoc

theorem failures_perm {methods methods' : List Method} (h : methods.Perm methods') :
    (v.failures methods).Perm (v.failures methods') :=
  h.filterMap _

/-- A run up to the first failure fails if some method does. -/
theorem exists_validateMethods_error {methods : List Method} (h : v.failures methods ≠ [])
    (r : Reporter) : ∃ e r', (v.validateMethods methods).run r = (.error e, r') := by
  obtain ⟨failed, others, hfailures⟩ := List.exists_cons_of_ne_nil h
  obtain ⟨before, after, hsplit, hbefore, he⟩ := exists_append_of_failures_cons hfailures
  exact ⟨failed.2, r.append (v.findings before), hsplit ▸ validateMethods_of_error hbefore he r⟩

/-- The validators find the same of every method. To validate all their methods is to run those
of the files, each file's in one block, in the orders `files` and `files'`. What is found of the
files then comes in these orders, unless both validations fail. -/
structure Reordered (v v' : Validator) (files files' : List FileDecl)
    (block : FileDecl → List Method) : Prop where
  run : ∀ method given r, (v'.run method given).run r = (v.run method given).run r
  model : v.validateModel = files.forM fun f => v.validateMethods (block f)
  model' : v'.validateModel = files'.forM fun f => v.validateMethods (block f)
  outcome : ∀ r,
    v.validateModel.run r = (.ok (), r.append (files.flatMap fun f => v.findings (block f))) ∧
      v'.validateModel.run r = (.ok (), r.append (files'.flatMap fun f => v.findings (block f))) ∨
    (∃ e r', v.validateModel.run r = (.error e, r')) ∧
      ∃ e r', v'.validateModel.run r = (.error e, r')

theorem validateMethods_perm (hperm : files.Perm files') (r : Reporter) :
    (v.validateMethods (files.flatMap block)).run r =
        (.ok (), r.append (files.flatMap fun f => v.findings (block f))) ∧
      (v.validateMethods (files'.flatMap block)).run r =
        (.ok (), r.append (files'.flatMap fun f => v.findings (block f))) ∨
    (∃ e r', (v.validateMethods (files.flatMap block)).run r = (.error e, r')) ∧
      ∃ e r', (v.validateMethods (files'.flatMap block)).run r = (.error e, r') := by
  have hfailures : (v.failures (files.flatMap block)).Perm (v.failures (files'.flatMap block)) :=
    failures_perm (hperm.flatMap_right block)
  by_cases hnone : v.failures (files.flatMap block) = []
  · rw [hnone] at hfailures
    rw [← findings_flatMap, ← findings_flatMap]
    exact .inl ⟨validateMethods_of_failures_nil hnone r,
      validateMethods_of_failures_nil hfailures.nil_eq.symm r⟩
  · exact .inr ⟨exists_validateMethods_error hnone r,
      exists_validateMethods_error (fun hnil => hnone (hnil ▸ hfailures).eq_nil) r⟩

theorem reordered_of_schema (h : s.Reordered s' files files' block) (o : Options) :
    Reordered ⟨s, o⟩ ⟨s', o⟩ files files' block := by
  have hrun : run ⟨s', o⟩ = run ⟨s, o⟩ := run_congr h.fieldsOf
  have hmodel : validateModel ⟨s, o⟩ = validateMethods ⟨s, o⟩ (files.flatMap block) := by
    rw [validateModel, h.methods]
  have hmodel' : validateModel ⟨s', o⟩ = validateMethods ⟨s, o⟩ (files'.flatMap block) := by
    rw [validateModel, h.methods', validateMethods_congr h.fieldsOf]
  refine ⟨fun method given r => by rw [hrun], ?_, ?_, fun r => ?_⟩
  · rw [hmodel, validateMethods_flatMap]
  · rw [hmodel', validateMethods_flatMap]
  · rw [hmodel, hmodel']
    exact validateMethods_perm h.perm r

end Validator

namespace Schema

/-- The order of files does not matter where no two messages have one name. In any order a
schema is built or not. Schemas in two orders have the same messages under all names and the
same methods in each file of interest; they validate any method alike, and all methods file by
file. -/
theorem build_perm (hdistinct : FileDecl.DistinctNames files) (hperm : files.Perm files')
    (targets : Option (List String)) :
    ((∃ s, build files targets = .ok s) ↔ ∃ s, build files' targets = .ok s) ∧
    ∀ s s', build files targets = .ok s → build files' targets = .ok s' → ∃ block,
      s.Reordered s' (FileDecl.targets files targets) (FileDecl.targets files' targets) block ∧
      ∀ o, Validator.Reordered ⟨s, o⟩ ⟨s', o⟩ (FileDecl.targets files targets)
        (FileDecl.targets files' targets) block := by
  refine ⟨exists_build_perm hperm hdistinct targets, fun s s' h h' => ?_⟩
  obtain ⟨block, hreordered⟩ := exists_reordered hperm hdistinct h h'
  exact ⟨block, hreordered, Validator.reordered_of_schema hreordered⟩

/-! ## Two files that refer to each other -/

def roomFile : FileDecl where
  name := "rooms.proto"
  package := "v1"
  messages := [⟨"Room", false,
    [⟨"name", 1, .string, false, ""⟩, ⟨"beds", 2, .message, true, ".v1.Bed"⟩], []⟩]
  services := [⟨"Rooms", [
    ⟨"GetRoom", ".v1.Room", ".v1.Room", some ⟨some (.standard .get "/v1/{name}"), "", "", []⟩⟩]⟩]
  spans := []

def bedFile : FileDecl where
  name := "beds.proto"
  package := "v1"
  messages := [⟨"Bed", false,
    [⟨"label", 1, .string, false, ""⟩, ⟨"room", 2, .message, false, ".v1.Room"⟩], []⟩]
  services := [⟨"Beds", [
    ⟨"GetBed", ".v1.Bed", ".v1.Bed", some ⟨some (.standard .get "/v1/{label}"), "", "", []⟩⟩]⟩]
  spans := []

def roomSchema : Schema where
  messages := [
    ⟨"v1.Room", "rooms.proto", false,
      [⟨"v1.Room", 0, "name", 1, ⟨.string, false, none⟩⟩,
        ⟨"v1.Room", 1, "beds", 2, ⟨.message, true, some ⟨"v1.Bed", false⟩⟩⟩]⟩,
    ⟨"v1.Bed", "beds.proto", false,
      [⟨"v1.Bed", 0, "label", 1, ⟨.string, false, none⟩⟩,
        ⟨"v1.Bed", 1, "room", 2, ⟨.message, false, some ⟨"v1.Room", false⟩⟩⟩]⟩]
  methods := [
    ⟨"v1.Rooms.GetRoom", ⟨"v1.Room", false⟩, ⟨"v1.Room", false⟩,
      some ⟨some (.standard .get "/v1/{name}"), "", "", []⟩,
      .ofElement "rooms.proto" "v1.Rooms.GetRoom"⟩,
    ⟨"v1.Beds.GetBed", ⟨"v1.Bed", false⟩, ⟨"v1.Bed", false⟩,
      some ⟨some (.standard .get "/v1/{label}"), "", "", []⟩,
      .ofElement "beds.proto" "v1.Beds.GetBed"⟩]
  targets := ["rooms.proto", "beds.proto"]

/-- Rooms can be declared after the beds that they have, or before. -/
theorem build_rooms :
    build [roomFile, bedFile] none = .ok roomSchema ∧
    ∃ s', build [bedFile, roomFile] none = .ok s' ∧
      (∀ name, s'.message? name = roomSchema.message? name) ∧
      roomSchema.methods.Perm s'.methods ∧
      ∀ o method given r, (Validator.run ⟨s', o⟩ method given).run r =
        (Validator.run ⟨roomSchema, o⟩ method given).run r := by
  have hall : build [roomFile, bedFile] none = .ok roomSchema := rfl
  have hdistinct : FileDecl.DistinctNames [roomFile, bedFile] :=
    FileDecl.distinctNames_iff.mpr (by decide)
  obtain ⟨hiff, hsame⟩ := build_perm hdistinct (.swap bedFile roomFile []) none
  obtain ⟨s', h'⟩ := hiff.mp ⟨roomSchema, hall⟩
  obtain ⟨block, hreordered, hvalid⟩ := hsame roomSchema s' hall h'
  refine ⟨hall, s', h', hreordered.message?, ?_, fun o => (hvalid o).run⟩
  rw [hreordered.methods, hreordered.methods']
  exact hreordered.perm.flatMap_right block

end Schema

end HttpTranscoding
