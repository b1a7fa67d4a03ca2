import HttpTranscoding.Proofs.Binding.LeftOver
import Mathlib.Data.Finset.Card
import Mathlib.Data.Finset.Dedup

/-!
# The messages that a walk takes apart

A walk below query parameters takes messages apart inside each other, and `parameterFields`
counts how many. `Walks` is the walk without the count: it comes to an end by itself, and with
the same result (`walks_iff`).

* `siblings_independent`: a walk closes the messages that it opens, so the fields of a list are
  walked as if each stood alone;
* `walks_end`: the messages that are taken apart inside each other are all different and were
  not open before, which is why every walk ends.
-/

namespace HttpTranscoding.Check

variable {s : Schema} {allowed V : NameSet} {fields : List Field}

/-! ## Walks without a depth -/

/-- `Walks s allowed fields V found W`: a walk of the fields in turn, begun while the messages of
`V` are open, comes to an end, has found `found` and leaves the messages of `W` open. Each field
is walked with what the fields before it leave open, and nothing counts how deep it is. -/
inductive Walks (s : Schema) (allowed : NameSet) :
    List Field → NameSet → List Violation → NameSet → Prop
  | nil {V : NameSet} : Walks s allowed [] V [] V
  | past {f : Field} {rest : List Field} {V W : NameSet} {more : List Violation}
      (stops : ∀ t, f.Expandable allowed t → t.fullName ∈ V)
      (after : Walks s allowed rest V more W) :
    Walks s allowed (f :: rest) V (faults allowed V f ++ more) W
  | into {f : Field} {t : MessageRef} {rest : List Field} {V U W : NameSet}
      {found more : List Violation} (opens : f.Expandable allowed t) (fresh : t.fullName ∉ V)
      (below : Walks s allowed (s.fieldsOf t.fullName) (V.insert t.fullName) found U)
      (after : Walks s allowed rest (U.erase t.fullName) more W) :
    Walks s allowed (f :: rest) V (faults allowed V f ++ found ++ more) W

/-- Whatever it finds, a walk closes the messages that it opens. -/
theorem Walks.eq {W : NameSet} {found : List Violation} (h : Walks s allowed fields V found W) :
    found = (fields.flatMap fun f => walk s allowed f V) ∧ W = V := by
  induction h with
  | nil => exact ⟨rfl, rfl⟩
  | past stops _ ih =>
    obtain ⟨rfl, rfl⟩ := ih
    exact ⟨by rw [List.flatMap_cons, walk_of_stopped stops], rfl⟩
  | into opens fresh _ _ ihbelow ihafter =>
    obtain ⟨rfl, rfl⟩ := ihbelow
    rw [NameSet.erase_insert fresh] at ihafter
    obtain ⟨rfl, rfl⟩ := ihafter
    exact ⟨by rw [List.flatMap_cons, walk_of_opened opens fresh], rfl⟩

/-- Fields that can each be walked before any others are walked one after the other. -/
theorem walks_of_forall (h : ∀ f ∈ fields, ∀ rest more W, Walks s allowed rest V more W →
    Walks s allowed (f :: rest) V (walk s allowed f V ++ more) W) :
    Walks s allowed fields V (fields.flatMap fun f => walk s allowed f V) V := by
  induction fields with
  | nil => exact .nil
  | cons f rest ih =>
    exact h f List.mem_cons_self _ _ _ (ih fun g hg => h g (List.mem_cons_of_mem f hg))

/-- A walk of a field comes to an end, and the walk of the next field follows. -/
theorem walks_cons (V : NameSet) (f : Field) : ∀ rest more W, Walks s allowed rest V more W →
    Walks s allowed (f :: rest) V (walk s allowed f V ++ more) W := by
  -- What is walked after the field is left open: below it, that is the next field there.
  induction V, f using walk_induction s allowed with
  | stopped V f hstop =>
    intro rest more W h
    rw [walk_of_stopped hstop]
    exact .past hstop h
  | opened V f t hf ht ih =>
    intro rest more W h
    rw [walk_of_opened hf ht]
    exact .into hf ht (walks_of_forall ih) (by rwa [NameSet.erase_insert ht])

/-- Every walk comes to an end, with what `parameterFields` finds in bounded depth. -/
theorem walks_iff {W : NameSet} {found : List Violation} :
    Walks s allowed fields V found W ↔ parameterFields s allowed fields V = (found, W) := by
  rw [parameterFields_eq, Prod.mk.injEq]
  constructor
  · intro h
    obtain ⟨rfl, rfl⟩ := h.eq
    exact ⟨rfl, rfl⟩
  · rintro ⟨rfl, rfl⟩
    exact walks_of_forall fun f _ => walks_cons V f

/-! ## Fields beside each other -/

/-- What is reported of a list of fields that a method sends as query parameters. -/
def parameterReport (s : Schema) (o : Options) (method : Method) (fields : List Field)
    (V : NameSet) : List Diagnostic :=
  (parameterFields s o.allowed fields V).1.map (·.diagnostic method)

/-- What is reported of each of the fields if it is the only one. -/
def parameterBlocks (s : Schema) (o : Options) (method : Method) (fields : List Field)
    (V : NameSet) : List (List Diagnostic) :=
  fields.map fun f => parameterReport s o method [f] V

theorem parameterReport_eq_flatten (o : Options) (method : Method) (fields : List Field)
    (V : NameSet) :
    parameterReport s o method fields V = (parameterBlocks s o method fields V).flatten := by
  simp only [parameterBlocks, parameterReport, parameterFields_eq, List.flatMap_cons,
    List.flatMap_nil, List.append_nil]
  rw [List.map_flatMap, List.flatMap_def]

/-- Whatever a walk reports, the messages that are open after it are those that were open before
it, and so it is for every walk that it consists of. What is reported of a list of fields is
therefore what is reported of each of them alone, one after the other, and fields in another
order have the same reports in another order. -/
theorem siblings_independent (s : Schema) (o : Options) (method : Method) (V : NameSet) :
    (∀ fields, (parameterFields s o.allowed fields V).2 = V) ∧
    (∀ fields found W, Walks s o.allowed fields V found W → W = V) ∧
    (∀ fields more, parameterReport s o method (fields ++ more) V =
      parameterReport s o method fields V ++ parameterReport s o method more V) ∧
    (∀ fields, parameterReport s o method fields V =
      (parameterBlocks s o method fields V).flatten) ∧
    ∀ fields fields', fields.Perm fields' →
      (parameterBlocks s o method fields V).Perm (parameterBlocks s o method fields' V) := by
  refine ⟨fun fields => ?_, fun fields found W h => h.eq.2, fun fields more => ?_,
    fun fields => parameterReport_eq_flatten o method fields V, fun fields fields' h => h.map _⟩
  · rw [parameterFields_eq]
  · simp only [parameterReport_eq_flatten]
    rw [parameterBlocks, List.map_append, List.flatten_append]
    rfl

/-! ## Messages inside each other -/

/-- `Expanding s allowed fields V names`: at some moment of a walk of the fields, begun while the
messages of `V` are open, the messages that the walk is taking apart are those with the given
names, each inside the one before. -/
inductive Expanding (s : Schema) (allowed : NameSet) :
    List Field → NameSet → List String → Prop
  | start {fields : List Field} {V : NameSet} : Expanding s allowed fields V []
  | past {f : Field} {rest : List Field} {V : NameSet} {names : List String}
      (stops : ∀ t, f.Expandable allowed t → t.fullName ∈ V)
      (after : Expanding s allowed rest V names) : Expanding s allowed (f :: rest) V names
  | inside {f : Field} {t : MessageRef} {rest : List Field} {V : NameSet} {names : List String}
      (opens : f.Expandable allowed t) (fresh : t.fullName ∉ V)
      (below : Expanding s allowed (s.fieldsOf t.fullName) (V.insert t.fullName) names) :
    Expanding s allowed (f :: rest) V (t.fullName :: names)
  | beyond {f : Field} {t : MessageRef} {rest : List Field} {V U : NameSet}
      {found : List Violation} {names : List String} (opens : f.Expandable allowed t)
      (fresh : t.fullName ∉ V)
      (below : Walks s allowed (s.fieldsOf t.fullName) (V.insert t.fullName) found U)
      (after : Expanding s allowed rest (U.erase t.fullName) names) :
    Expanding s allowed (f :: rest) V names

/-- The messages that are being taken apart are all different, and none was open before. -/
theorem Expanding.fresh {names : List String} (h : Expanding s allowed fields V names) :
    names.Nodup ∧ ∀ n ∈ names, n ∉ V := by
  induction h with
  | start => exact ⟨.nil, by simp⟩
  | past _ _ ih => exact ih
  | inside opens fresh _ ih =>
    obtain ⟨hnodup, hnew⟩ := ih
    simp only [NameSet.mem_insert, not_or] at hnew
    refine ⟨List.nodup_cons.mpr ⟨fun hmem => (hnew _ hmem).1 rfl, hnodup⟩, ?_⟩
    exact List.forall_mem_cons.mpr ⟨fresh, fun n hn => (hnew n hn).2⟩
  | beyond opens fresh below _ ih =>
    obtain ⟨-, rfl⟩ := below.eq
    rwa [NameSet.erase_insert fresh] at ih

/-- Only messages of the schema are taken apart if its fields refer to no others. -/
theorem Expanding.exists_message {names : List String} (h : Expanding s allowed fields V names)
    (hclosed : ∀ m ∈ s.messages, ∀ f ∈ m.fields, ∀ t, f.type.target = some t →
      ∃ m' ∈ s.messages, m'.fullName = t.fullName)
    (hfields : ∀ f ∈ fields, ∃ m ∈ s.messages, f ∈ m.fields) :
    ∀ n ∈ names, ∃ m ∈ s.messages, m.fullName = n := by
  induction h with
  | start => simp
  | past _ _ ih => exact ih fun g hg => hfields g (List.mem_cons_of_mem _ hg)
  | @inside f t _ _ _ opens _ _ ih =>
    obtain ⟨m, hm, hf⟩ := hfields f List.mem_cons_self
    refine List.forall_mem_cons.mpr ⟨hclosed m hm f hf t opens.1.1, ih fun g hg => ?_⟩
    obtain ⟨m', hm', -, hg⟩ := Schema.exists_message_of_mem_fieldsOf hg
    exact ⟨m', hm', hg⟩
  | beyond _ _ _ _ ih => exact ih fun g hg => hfields g (List.mem_cons_of_mem _ hg)

/-- The names of the messages of a schema that are not open. -/
def unopened (s : Schema) (V : NameSet) : Finset String :=
  (s.messages.map (·.fullName)).toFinset.filter (· ∉ V)

theorem mem_unopened_iff {n : String} :
    n ∈ unopened s V ↔ (∃ m ∈ s.messages, m.fullName = n) ∧ n ∉ V := by
  rw [unopened, Finset.mem_filter, List.mem_toFinset, List.mem_map]

/-- Whatever circles the messages of a built schema refer to each other in, a walk of fields comes
to an end, with what `parameterFields` finds. At every moment of it, the messages that it is
taking apart inside each other have different names, and none of them was open when it began. If
the fields are those of messages of the schema, so are these messages; then there are no more of
them than the schema has names of messages that were not open. -/
theorem walks_end {files : List FileDecl} {targets : Option (List String)}
    (hs : Schema.build files targets = .ok s) (o : Options) (fields : List Field) (V : NameSet) :
    (∀ found W, Walks s o.allowed fields V found W ↔
      parameterFields s o.allowed fields V = (found, W)) ∧
    ∀ names, Expanding s o.allowed fields V names →
      (names.Nodup ∧ ∀ n ∈ names, n ∉ V) ∧
      ((∀ f ∈ fields, ∃ m ∈ s.messages, f ∈ m.fields) →
        (∀ n ∈ names, ∃ m ∈ s.messages, m.fullName = n) ∧
        names.length ≤ (unopened s V).card) := by
  refine ⟨fun _ _ => walks_iff, fun names h => ⟨h.fresh, fun hfields => ?_⟩⟩
  obtain ⟨hnodup, hnew⟩ := h.fresh
  have hclosed := fun m (hm : m ∈ s.messages) f (hf : f ∈ m.fields) t =>
    (Schema.resolves_of_build hs).exists_message_of_target (t := t) hm hf
  have hknown := h.exists_message hclosed hfields
  refine ⟨hknown, ?_⟩
  rw [← List.toFinset_card_of_nodup hnodup]
  refine Finset.card_le_card fun n hn => ?_
  rw [List.mem_toFinset] at hn
  exact mem_unopened_iff.mpr ⟨hknown n hn, hnew n hn⟩

/-- A node is taken apart at its parent, and there the walk finds that it goes round in a circle.
A message that the schema does not have may be open all the while. -/
theorem walks_nodeSchema :
    Schema.build [nodeFile] none = .ok nodeSchema ∧
      Walks nodeSchema Options.default.allowed [nodeId, nodeParent] (NameSet.ofNames ["v1.Leaf"])
        [.cyclicParameter nodeParent, .cyclicParameter nodeChildren]
        (NameSet.ofNames ["v1.Leaf"]) ∧
      Expanding nodeSchema Options.default.allowed [nodeId, nodeParent]
        (NameSet.ofNames ["v1.Leaf"]) ["v1.Node"] ∧
      ["v1.Node"].length ≤ (unopened nodeSchema (NameSet.ofNames ["v1.Leaf"])).card := by
  have hplain : nodeParent.Plain ⟨"v1.Node", false⟩ := ⟨rfl, by decide, by decide⟩
  have hparent : nodeParent.Expandable Options.default.allowed ⟨"v1.Node", false⟩ :=
    ⟨hplain, fun h => absurd h.1 (by decide)⟩
  have hnone : ∀ t, ¬nodeId.Expandable Options.default.allowed t := fun t h => nomatch h.1.1
  have hexpanding : Expanding nodeSchema Options.default.allowed [nodeId, nodeParent]
      (NameSet.ofNames ["v1.Leaf"]) ["v1.Node"] :=
    .past (fun t h => absurd h (hnone t)) (.inside hparent (by decide) .start)
  have hfields : ∀ f ∈ [nodeId, nodeParent], ∃ m ∈ nodeSchema.messages, f ∈ m.fields := by decide
  obtain ⟨hends, hnames⟩ := walks_end build_nodeFile .default [nodeId, nodeParent]
    (NameSet.ofNames ["v1.Leaf"])
  exact ⟨build_nodeFile, (hends _ _).mpr rfl, hexpanding, ((hnames _ hexpanding).2 hfields).2⟩

end HttpTranscoding.Check
