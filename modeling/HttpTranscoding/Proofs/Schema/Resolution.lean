import HttpTranscoding.Proofs.Schema.Declared

/-!
# Names resolved

A schema is built if every name that the files refer to is that of a message they declare:
the types of all fields that hold messages, and the inputs and outputs of the methods of
interest (`FieldDecl.Known`, `MethodSite.Known`). If one is not, the first such name is the
error, fields before methods (`FileDecl.FirstUnknown`).

What is built has for each declaration what became of it (`Declared.Resolved`,
`MethodSite.Resolved`), in the order of declaration, and refers to nothing outside
(`Schema.Resolves`).

* `Schema.build_resolves`: all of this.
-/

namespace HttpTranscoding

/-! ## Names that are known -/

/-- The name that the reference refers to is that of a message of the files. -/
def FileDecl.Names (files : List FileDecl) (reference : String) : Prop :=
  ∃ a x, MessageAt files a x ∧ x.fullName = Name.absolute reference

/-- A field that holds messages names a message of the files. -/
def FieldDecl.Known (files : List FileDecl) (d : FieldDecl) : Prop :=
  d.kind.refersToMessage → FileDecl.Names files d.typeName

/-- A method names messages of the files as its input and its output. -/
def MethodSite.Known (files : List FileDecl) (site : MethodSite) : Prop :=
  FileDecl.Names files site.decl.input ∧ FileDecl.Names files site.decl.output

namespace FileDecl

/-- Every field of every message is known, be the message nested or hidden by another of
its name. -/
def FieldsKnown (files : List FileDecl) : Prop :=
  ∀ a x, MessageAt files a x → ∀ d ∈ x.fields, d.Known files

/-- The error of the first name that is not known. Fields come in the order of their messages
and then as the message declares them, and methods come after all fields, the input of each
before its output. -/
inductive FirstUnknown (files : List FileDecl) (targets : Option (List String)) :
    SchemaError → Prop
  | field {a : List Nat} {x : Declared} {i : Nat} {d : FieldDecl} (message : MessageAt files a x)
      (get : x.fields[i]? = some d) (unknown : ¬d.Known files)
      (earlier : ∀ b y, MessageAt files b y → b < a → ∀ c ∈ y.fields, c.Known files)
      (above : ∀ j c, x.fields[j]? = some c → j < i → c.Known files) :
    FirstUnknown files targets (.unknownFieldType x.fullName d.name d.typeName)
  | input {a : List Nat} {site : MethodSite} (fields : FieldsKnown files)
      (method : MethodAt files targets a site) (unknown : ¬Names files site.decl.input)
      (earlier : ∀ b site', MethodAt files targets b site' → b < a → site'.Known files) :
    FirstUnknown files targets (.unknownMethodType site.fullName site.decl.input)
  | output {a : List Nat} {site : MethodSite} (fields : FieldsKnown files)
      (method : MethodAt files targets a site) (input : Names files site.decl.input)
      (unknown : ¬Names files site.decl.output)
      (earlier : ∀ b site', MethodAt files targets b site' → b < a → site'.Known files) :
    FirstUnknown files targets (.unknownMethodType site.fullName site.decl.output)

end FileDecl

/-! ## What declarations become -/

/-- The field `f` is what the schema makes of the declaration at `position` in a message. It holds
messages if its kind does, and then that which the schema has under the name of its type. -/
structure FieldDecl.Resolved (s : Schema) (message : String) (position : Nat) (d : FieldDecl)
    (f : Field) : Prop where
  parent : f.parent = message
  position : f.position = position
  name : f.name = d.name
  number : f.number = d.number
  kind : f.type.kind = d.kind
  repeated : f.type.repeated = d.repeated
  isMessage : f.type.isMessage ↔ d.kind.refersToMessage
  target : ∀ t, f.type.target = some t → ∃ m, s.find? d.typeName = some m ∧ m.ref = t

/-- The message `m` is what the schema makes of a declared message, with a field for each of
the fields declared. -/
structure Declared.Resolved (s : Schema) (x : Declared) (m : Message) : Prop where
  fullName : m.fullName = x.fullName
  file : m.file = x.file
  mapEntry : m.mapEntry = x.mapEntry
  fields : List.Forall₂ (fun d f => d.1.Resolved s x.fullName d.2 f) x.fields.zipIdx m.fields

/-- The method is what the schema makes of a declared one, with messages of the schema for its
input and its output. -/
structure MethodSite.Resolved (s : Schema) (site : MethodSite) (method : Method) : Prop where
  fullName : method.fullName = site.fullName
  input : ∃ m, s.find? site.decl.input = some m ∧ m.ref = method.input
  output : ∃ m, s.find? site.decl.output = some m ∧ m.ref = method.output
  http : method.http = site.decl.http
  location : method.location = site.location

/-- The schema is made of what the files declare, all names resolved in the schema itself. A
full name stands for the last message declared under it. -/
structure Schema.Resolves (s : Schema) (files : List FileDecl) (targets : Option (List String)) :
    Prop where
  messages : Lists (fun a m => ∃ x, FileDecl.MessageAt files a x ∧ x.Resolved s m) s.messages
  message? : ∀ name m, s.message? name = some m ↔
    ∃ a x, FileDecl.MessageAt files a x ∧ x.fullName = name ∧ x.Resolved s m ∧
      ∀ b y, FileDecl.MessageAt files b y → y.fullName = name → ¬a < b
  methods : Lists (fun a method => ∃ site, FileDecl.MethodAt files targets a site ∧
    site.Resolved s method) s.methods
  targets : s.targets = (files.filter (·.Targeted targets)).map (·.name)

/-! ## When names are found -/

variable {files : List FileDecl} {targets : Option (List String)} {e : SchemaError}

namespace FileDecl

theorem exists_lookup?_iff {reference : String} :
    (∃ t, Declared.lookup? (files.flatMap declared) reference = some t) ↔
      Names files reference := by
  unfold Declared.lookup? Names
  rw [← Option.isSome_iff_exists, Option.isSome_map, List.findRev?_eq_find?_reverse,
    List.find?_isSome]
  simp only [List.mem_reverse, (lists_declared files).mem_iff, decide_eq_true_eq]
  grind

theorem lookup?_eq_none_iff {reference : String} :
    Declared.lookup? (files.flatMap declared) reference = none ↔ ¬Names files reference := by
  rw [← exists_lookup?_iff, ← Option.isSome_iff_exists, Option.not_isSome_iff_eq_none]

end FileDecl

theorem fieldType_eq_error_iff {message : String} {d : FieldDecl} :
    Declared.fieldType (files.flatMap FileDecl.declared) message d = .error e ↔
      ¬d.Known files ∧ e = .unknownFieldType message d.name d.typeName := by
  unfold Declared.fieldType FieldDecl.Known
  by_cases hkind : d.kind.refersToMessage
  · cases h : Declared.lookup? (files.flatMap FileDecl.declared) d.typeName with
    | none => simp [hkind, FileDecl.lookup?_eq_none_iff.mp h, eq_comm]
    | some t => simp [hkind, FileDecl.exists_lookup?_iff.mp ⟨t, h⟩]
  · simp [hkind]

namespace Declared

/-- The field that is declared at an index of a message. -/
def resolveField (ds : List Declared) (message : String) (d : FieldDecl × Nat) :
    Except SchemaError Field :=
  (fieldType ds message d.1).map fun type => ⟨message, d.2, d.1.name, d.1.number, type⟩

theorem resolveFields_eq (ds : List Declared) (message : String) (position : Nat)
    (fields : List FieldDecl) : resolveFields ds message position fields =
      (fields.zipIdx position).mapM (resolveField ds message) := by
  induction fields generalizing position with
  | nil => rfl
  | cons d rest ih =>
    rw [resolveFields, ih, List.zipIdx_cons, List.mapM_cons, resolveField]
    cases fieldType ds message d <;> rfl

theorem resolveField_eq_error_iff {message : String} {d : FieldDecl × Nat} :
    resolveField (files.flatMap FileDecl.declared) message d = .error e ↔
      ¬d.1.Known files ∧ e = .unknownFieldType message d.1.name d.1.typeName := by
  rw [← fieldType_eq_error_iff, resolveField]
  cases fieldType (files.flatMap FileDecl.declared) message d.1 <;> simp [Except.map]

theorem exists_resolveField_iff {message : String} {d : FieldDecl × Nat} :
    (∃ f, resolveField (files.flatMap FileDecl.declared) message d = .ok f) ↔ d.1.Known files :=
  exists_ok_iff (by simp [resolveField_eq_error_iff])

/-- A message is resolved if its fields are. -/
theorem resolve_eq (ds : List Declared) (x : Declared) : resolve ds x =
    (x.fields.zipIdx.mapM (resolveField ds x.fullName)).map
      fun fields => ⟨x.fullName, x.file, x.mapEntry, fields⟩ := by
  rw [resolve, resolveFields_eq]

/-- A message is not resolved for the first of its fields that is not known. -/
theorem resolve_eq_error_iff {x : Declared} :
    resolve (files.flatMap FileDecl.declared) x = .error e ↔
      ∃ (i : Nat) (d : FieldDecl), x.fields[i]? = some d ∧ ¬d.Known files ∧
        e = .unknownFieldType x.fullName d.name d.typeName ∧
        ∀ j c, x.fields[j]? = some c → j < i → c.Known files := by
  rw [resolve_eq, map_eq_error_iff, (Lists.zipIdx x.fields).mapM_eq_error_iff]
  simp only [resolveField_eq_error_iff, exists_resolveField_iff]
  constructor
  · rintro ⟨_, ⟨d, i⟩, ⟨rfl, hd⟩, ⟨hunknown, rfl⟩, hbefore⟩
    exact ⟨i, d, hd, hunknown, rfl, fun j c hc hlt =>
      hbefore [j] (c, j) ⟨rfl, hc⟩ (by simpa [List.cons_lt_cons_iff] using hlt)⟩
  · rintro ⟨i, d, hd, hunknown, rfl, hbefore⟩
    refine ⟨[i], (d, i), ⟨rfl, hd⟩, ⟨hunknown, rfl⟩, ?_⟩
    rintro _ ⟨c, j⟩ ⟨rfl, hc⟩ hlt
    exact hbefore j c hc (by simpa [List.cons_lt_cons_iff] using hlt)

theorem exists_resolve_iff {x : Declared} :
    (∃ m, resolve (files.flatMap FileDecl.declared) x = .ok m) ↔ ∀ d ∈ x.fields, d.Known files := by
  rw [resolve_eq, exists_map_iff, exists_mapM_iff]
  simp only [exists_resolveField_iff]
  constructor
  · intro h d hd
    obtain ⟨i, hi⟩ := List.mem_iff_getElem?.mp hd
    exact h (d, i) (List.mem_zipIdx_iff_getElem?.mpr hi)
  · rintro h ⟨d, i⟩ hd
    exact h d (List.mem_of_getElem? (List.mem_zipIdx_iff_getElem?.mp hd))

end Declared

namespace MethodSite

theorem resolve_eq_error_iff {site : MethodSite} :
    resolve (files.flatMap FileDecl.declared) site = .error e ↔
      ¬FileDecl.Names files site.decl.input ∧
        e = .unknownMethodType site.fullName site.decl.input ∨
      FileDecl.Names files site.decl.input ∧ ¬FileDecl.Names files site.decl.output ∧
        e = .unknownMethodType site.fullName site.decl.output := by
  unfold resolve
  simp only [← FileDecl.exists_lookup?_iff]
  cases Declared.lookup? (files.flatMap FileDecl.declared) site.decl.input <;>
    cases Declared.lookup? (files.flatMap FileDecl.declared) site.decl.output <;>
    simp [eq_comm]

theorem exists_resolve_iff {site : MethodSite} :
    (∃ method, resolve (files.flatMap FileDecl.declared) site = .ok method) ↔
      site.Known files := by
  refine exists_ok_iff ?_
  simp only [resolve_eq_error_iff, exists_or, exists_and_left, exists_eq, and_true, Known]
  tauto

end MethodSite

/-! ## When a schema is built -/

namespace Schema

variable {s : Schema}

theorem build_eq_ok_iff : build files targets = .ok s ↔
    (files.flatMap FileDecl.declared).mapM
        (Declared.resolve (files.flatMap FileDecl.declared)) = .ok s.messages ∧
      ((FileDecl.targets files targets).flatMap FileDecl.sites).mapM
        (MethodSite.resolve (files.flatMap FileDecl.declared)) = .ok s.methods ∧
      s.targets = (FileDecl.targets files targets).map (·.name) := by
  unfold build
  simp only [bind_eq_ok_iff]
  constructor
  · rintro ⟨messages, hmessages, methods, hmethods, h⟩
    obtain rfl := Except.ok.inj h
    exact ⟨hmessages, hmethods, rfl⟩
  · rintro ⟨hmessages, hmethods, htargets⟩
    exact ⟨s.messages, hmessages, s.methods, hmethods, by rw [← htargets]; rfl⟩

theorem exists_messages_iff : (∃ messages, (files.flatMap FileDecl.declared).mapM
    (Declared.resolve (files.flatMap FileDecl.declared)) = .ok messages) ↔
      FileDecl.FieldsKnown files := by
  simp only [exists_mapM_iff, Declared.exists_resolve_iff, (FileDecl.lists_declared files).mem_iff,
    FileDecl.FieldsKnown]
  exact ⟨fun h a x hx => h x ⟨a, hx⟩, fun h x ⟨a, hx⟩ => h a x hx⟩

/-- Each message and each method is resolved by itself. -/
theorem exists_build_iff_forall_mem : (∃ s, build files targets = .ok s) ↔
    (∀ x ∈ files.flatMap FileDecl.declared,
      ∃ m, Declared.resolve (files.flatMap FileDecl.declared) x = .ok m) ∧
    ∀ site ∈ (FileDecl.targets files targets).flatMap FileDecl.sites,
      ∃ method, MethodSite.resolve (files.flatMap FileDecl.declared) site = .ok method := by
  simp only [build_eq_ok_iff, ← exists_mapM_iff]
  constructor
  · rintro ⟨s, hmessages, hmethods, -⟩
    exact ⟨⟨_, hmessages⟩, _, hmethods⟩
  · rintro ⟨⟨messages, hmessages⟩, methods, hmethods⟩
    exact ⟨⟨messages, methods, _⟩, hmessages, hmethods, rfl⟩

/-- A schema is built if every name is known. -/
theorem exists_build_iff : (∃ s, build files targets = .ok s) ↔
    FileDecl.FieldsKnown files ∧
      ∀ a site, FileDecl.MethodAt files targets a site → site.Known files := by
  rw [exists_build_iff_forall_mem, ← exists_mapM_iff, exists_messages_iff]
  simp only [MethodSite.exists_resolve_iff, (FileDecl.lists_sites files targets).mem_iff]
  exact and_congr_right'
    ⟨fun h a site hsite => h site ⟨a, hsite⟩, fun h site ⟨a, hsite⟩ => h a site hsite⟩

/-- Methods are come to only after all messages. -/
theorem build_eq_error_iff_mapM : build files targets = .error e ↔
    (files.flatMap FileDecl.declared).mapM
        (Declared.resolve (files.flatMap FileDecl.declared)) = .error e ∨
      FileDecl.FieldsKnown files ∧
        ((FileDecl.targets files targets).flatMap FileDecl.sites).mapM
          (MethodSite.resolve (files.flatMap FileDecl.declared)) = .error e := by
  rw [← exists_messages_iff]
  unfold build
  simp [bind_eq_error_iff, pure, Except.pure]

/-- A schema is not built for the first name that is not known. -/
theorem build_eq_error_iff :
    build files targets = .error e ↔ FileDecl.FirstUnknown files targets e := by
  rw [build_eq_error_iff_mapM, (FileDecl.lists_declared files).mapM_eq_error_iff,
    (FileDecl.lists_sites files targets).mapM_eq_error_iff]
  simp only [Declared.resolve_eq_error_iff, Declared.exists_resolve_iff,
    MethodSite.resolve_eq_error_iff, MethodSite.exists_resolve_iff]
  constructor
  · rintro (⟨a, x, message, ⟨i, d, get, unknown, rfl, above⟩, earlier⟩ |
      ⟨fields, a, site, method, ⟨unknown, rfl⟩ | ⟨input, unknown, rfl⟩, earlier⟩)
    · exact .field message get unknown earlier above
    · exact .input fields method unknown earlier
    · exact .output fields method input unknown earlier
  · rintro (⟨message, get, unknown, earlier, above⟩ | ⟨fields, method, unknown, earlier⟩ |
      ⟨fields, method, input, unknown, earlier⟩)
    · exact .inl ⟨_, _, message, ⟨_, _, get, unknown, rfl, above⟩, earlier⟩
    · exact .inr ⟨fields, _, _, method, .inl ⟨unknown, rfl⟩, earlier⟩
    · exact .inr ⟨fields, _, _, method, .inr ⟨input, unknown, rfl⟩, earlier⟩

end Schema

/-! ## What a built schema holds -/

variable {s : Schema}

namespace Declared

variable {ds : List Declared} {x : Declared} {m : Message}

theorem resolve_eq_ok_iff : resolve ds x = .ok m ↔
    m.fullName = x.fullName ∧ m.file = x.file ∧ m.mapEntry = x.mapEntry ∧
      List.Forall₂ (fun d f => resolveField ds x.fullName d = .ok f) x.fields.zipIdx m.fields := by
  rw [resolve_eq, map_eq_ok_iff]
  simp only [mapM_eq_ok_iff]
  constructor
  · rintro ⟨fields, hfields, rfl⟩
    exact ⟨rfl, rfl, rfl, hfields⟩
  · rintro ⟨hname, hfile, hentry, hfields⟩
    exact ⟨m.fields, hfields, by rw [← hname, ← hfile, ← hentry]⟩

/-- Names are looked up in a schema as they are among the declarations it is made of. -/
theorem map_ref_find? {xs : List Declared} {ms : List Message}
    (h : List.Forall₂ (fun x m => resolve ds x = .ok m) xs ms) (name : String) :
    (ms.find? (·.fullName = name)).map (·.ref) = (xs.find? (·.fullName = name)).map (·.ref) := by
  induction h with
  | nil => rfl
  | @cons x m _ _ hm _ ih =>
    obtain ⟨hname, -, hentry, -⟩ := resolve_eq_ok_iff.mp hm
    by_cases h : x.fullName = name
    · simp [hname, h, Message.ref, ref, hentry]
    · simpa [hname, h] using ih

theorem lookup?_eq (h : List.Forall₂ (fun x m => resolve ds x = .ok m) ds s.messages)
    (reference : String) : lookup? ds reference = (s.find? reference).map (·.ref) := by
  unfold lookup? Schema.find? Schema.message?
  rw [List.findRev?_eq_find?_reverse, List.findRev?_eq_find?_reverse]
  exact (map_ref_find? (List.forall₂_reverse_iff.mpr h) (Name.absolute reference)).symm

end Declared

/-- Where the schema has what is looked up among the declarations, it has what they become. -/
theorem FieldDecl.resolved_of_resolveField {ds : List Declared}
    (hlookup : ∀ reference, Declared.lookup? ds reference = (s.find? reference).map (·.ref))
    {message : String} {d : FieldDecl × Nat} {f : Field}
    (h : Declared.resolveField ds message d = .ok f) : d.1.Resolved s message d.2 f := by
  unfold Declared.resolveField at h
  obtain ⟨type, htype, rfl⟩ := map_eq_ok_iff.mp h
  unfold Declared.fieldType at htype
  by_cases hkind : d.1.kind.refersToMessage
  · cases hm : s.find? d.1.typeName with
    | none => simp [hkind, hlookup, hm] at htype
    | some m =>
      obtain rfl : ⟨d.1.kind, d.1.repeated, some m.ref⟩ = type := by
        simpa [hkind, hlookup, hm] using htype
      exact ⟨rfl, rfl, rfl, rfl, rfl, rfl, by simp [TypeRef.isMessage, hkind],
        fun t ht => ⟨m, hm, Option.some.inj ht⟩⟩
  · obtain rfl : ⟨d.1.kind, d.1.repeated, none⟩ = type := by simpa [hkind] using htype
    exact ⟨rfl, rfl, rfl, rfl, rfl, rfl, by simp [TypeRef.isMessage, hkind], fun t ht => nomatch ht⟩

theorem MethodSite.resolve_eq_ok_iff {ds : List Declared} {site : MethodSite} {method : Method} :
    resolve ds site = .ok method ↔
      ∃ input output, Declared.lookup? ds site.decl.input = some input ∧
        Declared.lookup? ds site.decl.output = some output ∧
        method = ⟨site.fullName, input, output, site.decl.http, site.location⟩ := by
  unfold resolve
  cases Declared.lookup? ds site.decl.input <;> cases Declared.lookup? ds site.decl.output <;>
    simp [eq_comm]

theorem MethodSite.resolved_of_resolve {ds : List Declared}
    (hlookup : ∀ reference, Declared.lookup? ds reference = (s.find? reference).map (·.ref))
    {site : MethodSite} {method : Method} (h : resolve ds site = .ok method) :
    site.Resolved s method := by
  obtain ⟨input, output, hinput, houtput, rfl⟩ := resolve_eq_ok_iff.mp h
  rw [hlookup, Option.map_eq_some_iff] at hinput houtput
  exact ⟨rfl, hinput, houtput, rfl, rfl⟩

/-! A declaration becomes one thing. -/

theorem FieldDecl.Resolved.target_eq {message : String} {position : Nat} {d : FieldDecl}
    {f g : Field} (hf : d.Resolved s message position f) (hg : d.Resolved s message position g) :
    f.type.target = g.type.target := by
  have hsome : f.type.target.isSome ↔ g.type.target.isSome := hf.isMessage.trans hg.isMessage.symm
  cases ht : f.type.target with
  | none =>
    have hnone : g.type.target = none := by simpa [ht] using hsome
    exact hnone.symm
  | some t =>
    obtain ⟨u, hu⟩ := Option.isSome_iff_exists.mp (hsome.mp (by simp [ht]))
    obtain ⟨m, hm, rfl⟩ := hf.target t ht
    obtain ⟨m', hm', rfl⟩ := hg.target u hu
    rw [hu, Option.some.inj (hm.symm.trans hm')]

theorem FieldDecl.Resolved.unique {message : String} {position : Nat} {d : FieldDecl}
    {f g : Field} (hf : d.Resolved s message position f) (hg : d.Resolved s message position g) :
    f = g := by
  have htarget := hf.target_eq hg
  obtain ⟨_, _, _, _, ⟨_, _, _⟩⟩ := f
  obtain ⟨_, _, _, _, ⟨_, _, _⟩⟩ := g
  obtain ⟨rfl, rfl, rfl, rfl, rfl, rfl, -, -⟩ := hf
  obtain ⟨rfl, rfl, rfl, rfl, rfl, rfl, -, -⟩ := hg
  simpa using htarget

theorem Declared.Resolved.unique {x : Declared} {m m' : Message} (h : x.Resolved s m)
    (h' : x.Resolved s m') : m = m' := by
  have hunique : Relator.RightUnique
      fun (d : FieldDecl × Nat) f => d.1.Resolved s x.fullName d.2 f :=
    fun _ _ _ hf hg => hf.unique hg
  have hfields := hunique.forall₂ h.fields h'.fields
  obtain ⟨_, _, _, _⟩ := m
  obtain ⟨_, _, _, _⟩ := m'
  obtain ⟨rfl, rfl, rfl, -⟩ := h
  obtain ⟨rfl, rfl, rfl, -⟩ := h'
  simpa using hfields

theorem MethodSite.Resolved.unique {site : MethodSite} {method method' : Method}
    (h : site.Resolved s method) (h' : site.Resolved s method') : method = method' := by
  obtain ⟨_, _, _, _, _⟩ := method
  obtain ⟨_, _, _, _, _⟩ := method'
  obtain ⟨rfl, ⟨i, hi, rfl⟩, ⟨o, ho, rfl⟩, rfl, rfl⟩ := h
  obtain ⟨rfl, ⟨i', hi', rfl⟩, ⟨o', ho', rfl⟩, rfl, rfl⟩ := h'
  rw [Option.some.inj (hi.symm.trans hi'), Option.some.inj (ho.symm.trans ho')]

namespace Schema

/-- What is built refers to nothing outside of it. -/
theorem resolves_of_build (h : build files targets = .ok s) : s.Resolves files targets := by
  obtain ⟨hmessages, hmethods, htargets⟩ := build_eq_ok_iff.mp h
  rw [mapM_eq_ok_iff] at hmessages hmethods
  have hlookup := Declared.lookup?_eq hmessages
  have hresolved :
      List.Forall₂ (Declared.Resolved s) (files.flatMap FileDecl.declared) s.messages :=
    hmessages.imp fun x m hm => by
      obtain ⟨hname, hfile, hentry, hfields⟩ := Declared.resolve_eq_ok_iff.mp hm
      exact ⟨hname, hfile, hentry,
        hfields.imp fun d f hf => FieldDecl.resolved_of_resolveField hlookup hf⟩
  have hlists := (FileDecl.lists_declared files).forall₂ hresolved fun _ _ _ hm hm' => hm.unique hm'
  refine ⟨hlists, fun name m => ?_, ?_, by rw [htargets, FileDecl.targets_eq]⟩
  -- Messages keep their names and their addresses, so the last of a name is made of the last.
  · unfold message?
    rw [hlists.findRev?_eq_some_iff]
    simp only [decide_eq_true_eq]
    constructor
    · rintro ⟨a, ⟨x, hx, hm⟩, rfl, hlast⟩
      refine ⟨a, x, hx, hm.fullName.symm, hm, fun b y hy hname => ?_⟩
      obtain ⟨m', -, hm'⟩ :=
        exists_mem_right hresolved ((FileDecl.lists_declared files).mem_iff.mpr ⟨b, hy⟩)
      exact hlast b m' ⟨y, hy, hm'⟩ (hm'.fullName.trans hname)
    · rintro ⟨a, x, hx, rfl, hm, hlast⟩
      refine ⟨a, ⟨x, hx, hm⟩, hm.fullName, fun b m' => ?_⟩
      rintro ⟨y, hy, hm'⟩ hname
      exact hlast b y hy (hm'.fullName.symm.trans hname)
  · exact (FileDecl.lists_sites files targets).forall₂
      (hmethods.imp fun site method hm => MethodSite.resolved_of_resolve hlookup hm)
      fun _ _ _ hm hm' => hm.unique hm'

/-- Names are resolved completely, and within the files. A schema is built if and only if the
types of all fields that hold messages, and the inputs and outputs of all methods of interest,
are names of messages that the files declare; otherwise the error is that of the first name
which is not, fields before methods. What is built has all messages with all their fields, and
all methods of interest, in the order of declaration; a field holds messages if its kind does,
and every name stands for the last message declared under it. -/
theorem build_resolves (files : List FileDecl) (targets : Option (List String)) :
    ((∃ s, build files targets = .ok s) ↔
      FileDecl.FieldsKnown files ∧
        ∀ a site, FileDecl.MethodAt files targets a site → site.Known files) ∧
    (∀ e, build files targets = .error e ↔ FileDecl.FirstUnknown files targets e) ∧
    (∀ s, build files targets = .ok s → s.Resolves files targets) :=
  ⟨exists_build_iff, fun _ => build_eq_error_iff, fun _ => resolves_of_build⟩

end Schema

end HttpTranscoding
