import HttpTranscoding.Proofs.Query.Walk
import HttpTranscoding.Proofs.Schema.Listing

/-!
# Walks as lists of chains

What a walk below query parameters finds, said without a walk and without a set that changes
on the way. A walk follows every chain of fields that leads on only where `Continues` allows
it, which is decided by the messages that are open at first and by those that the fields
before hold. It comes to the chains in preorder, and what it finds is what is wrong with
their last fields (`verdict`).

* `followed_single_iff`: the chains from a field are the field alone and, where the field can
  be left, those from the fields of its message while this message is open too;
* `exists_chains_of_field`: by induction on walks, the chains from one field;
* `parameterFields_preorder`: the chains from a list of fields.
-/

namespace HttpTranscoding.Check

variable {s : Schema} {allowed V : NameSet}

/-! ## Chains and where they end -/

/-- The path begins with one of `fields`, and each further field of it is declared by the message
that the one before it holds. The address tells the index of the first field in `fields` and
the index of each other one in its message. -/
inductive Along (s : Schema) : List Field → List Nat → FieldPath → Prop
  | single {fields : List Field} {k : Nat} {f : Field} (first : fields[k]? = some f) :
    Along s fields [k] (.single f)
  | cons {fields : List Field} {k : Nat} {f : Field} {t : MessageRef} {a : List Nat}
      {p : FieldPath} (first : fields[k]? = some f) (target : f.type.target = some t)
      (rest : Along s (s.fieldsOf t.fullName) a p) : Along s fields (k :: a) (.cons f p)

/-- The names of the messages that fields hold. -/
def heldNames (fields : List Field) : List String :=
  fields.filterMap fun f => f.type.target.map (·.fullName)

/-- Whether a chain leads on after the field `f` that the fields `earlier` lead to: it holds
messages that are no map entries and no parameter values, of a type that is neither open nor
held by an earlier field, and it is not repeated and allowed. -/
def Continues (allowed V : NameSet) (earlier : List Field) (f : Field) : Prop :=
  ∃ t, f.type.target = some t ∧ ¬f.type.isMap ∧ ¬t.wellKnown.rendersAsParameter ∧
    t.fullName ∉ V ∧ t.fullName ∉ heldNames earlier ∧ ¬(f.type.repeated ∧ f.fullName ∈ allowed)

/-- The path at the address is a chain that leads on after each of its fields but the last. -/
structure Followed (s : Schema) (allowed V : NameSet) (fields : List Field) (a : List Nat)
    (p : FieldPath) : Prop where
  along : Along s fields a p
  continues : ∀ earlier f later, p.fields = earlier ++ f :: later → later ≠ [] →
    Continues allowed V earlier f

/-- What is wrong with the last field of a chain if the messages of `V` are open at first. -/
def verdict (allowed V : NameSet) (p : FieldPath) : List Violation :=
  if p.type.isMap then [.mapParameter p.last]
  else
    match p.type.target with
    | none => []
    | some t =>
      if t.wellKnown.rendersAsParameter then []
      else if t.fullName ∈ V ∨ t.fullName ∈ heldNames p.fields.dropLast then
        [.cyclicParameter p.last]
      else if p.type.repeated ∧ p.last.fullName ∈ allowed then []
      else if p.type.repeated then [.repeatedParameter p.last]
      else []

/-! ## A chain without its first field -/

theorem heldNames_cons {f : Field} {t : MessageRef} (hf : f.type.target = some t)
    (earlier : List Field) : heldNames (f :: earlier) = t.fullName :: heldNames earlier := by
  simp [heldNames, hf]

/-- A message is open or held after a field if it is so once the message of the field is open. -/
theorem mem_heldNames_cons_iff {f : Field} {t : MessageRef} (hf : f.type.target = some t)
    {earlier : List Field} {n : String} :
    n ∈ V ∨ n ∈ heldNames (f :: earlier) ↔ n ∈ V.insert t.fullName ∨ n ∈ heldNames earlier := by
  rw [heldNames_cons hf, List.mem_cons, NameSet.mem_insert]
  tauto

theorem continues_cons_iff {f g : Field} {t : MessageRef} (hf : f.type.target = some t)
    {earlier : List Field} :
    Continues allowed V (f :: earlier) g ↔ Continues allowed (V.insert t.fullName) earlier g := by
  have hopen : ∀ n, n ∉ V ∧ n ∉ heldNames (f :: earlier) ↔
      n ∉ V.insert t.fullName ∧ n ∉ heldNames earlier := fun n => by
    rw [← not_or, ← not_or, mem_heldNames_cons_iff hf]
  unfold Continues
  refine exists_congr fun u => ?_
  have := hopen u.fullName
  tauto

theorem continues_nil_iff {f : Field} :
    Continues allowed V [] f ↔ ∃ t, f.Expandable allowed t ∧ t.fullName ∉ V := by
  unfold Continues Field.Expandable Field.Plain
  simp only [heldNames, List.filterMap_nil, List.not_mem_nil, not_false_eq_true, true_and]
  exact exists_congr fun t => by tauto

theorem verdict_cons {f : Field} {t : MessageRef} (hf : f.type.target = some t) (p : FieldPath) :
    verdict allowed V (.cons f p) = verdict allowed (V.insert t.fullName) p := by
  have hlast : (FieldPath.cons f p).last = p.last := List.getLast_cons p.ne_nil
  have htype : (FieldPath.cons f p).type = p.type := congrArg Field.type hlast
  have hearlier : (FieldPath.cons f p).fields.dropLast = f :: p.fields.dropLast :=
    List.dropLast_cons_of_ne_nil p.ne_nil
  unfold verdict
  simp only [hlast, htype, hearlier, mem_heldNames_cons_iff hf]

theorem verdict_single (f : Field) : verdict allowed V (.single f) = faults allowed V f := by
  have hlast : (FieldPath.single f).last = f := rfl
  have htype : (FieldPath.single f).type = f.type := rfl
  have hearlier : (FieldPath.single f).fields.dropLast = [] := rfl
  unfold verdict faults Field.parameterShape
  simp only [hlast, htype, hearlier, heldNames, List.filterMap_nil, List.not_mem_nil, or_false]
  grind

/-! ## The chains from a field -/

theorem followed_cons_iff {fields : List Field} {k : Nat} {b : List Nat} {p : FieldPath} :
    Followed s allowed V fields (k :: b) p ↔
      ∃ f, fields[k]? = some f ∧ Followed s allowed V [f] (0 :: b) p := by
  constructor
  · rintro ⟨along, hcontinues⟩
    cases along with
    | single first => exact ⟨_, first, .single rfl, hcontinues⟩
    | cons first target rest => exact ⟨_, first, .cons rfl target rest, hcontinues⟩
  · rintro ⟨f, first, along, hcontinues⟩
    cases along with
    | single hf => exact ⟨.single (first.trans hf), hcontinues⟩
    | cons hf target rest => exact ⟨.cons (first.trans hf) target rest, hcontinues⟩

theorem not_followed_nil {fields : List Field} {p : FieldPath} :
    ¬Followed s allowed V fields [] p := by
  rintro ⟨along, -⟩
  cases along

/-- A field alone is a chain, and what follows it on a longer one is a chain from the fields of
its message, with this message open. -/
theorem followed_single_iff {f : Field} {b : List Nat} {p : FieldPath} :
    Followed s allowed V [f] (0 :: b) p ↔
      b = [] ∧ p = .single f ∨ ∃ t q, f.Expandable allowed t ∧ t.fullName ∉ V ∧ p = .cons f q ∧
        Followed s allowed (V.insert t.fullName) (s.fieldsOf t.fullName) b q := by
  constructor
  · rintro ⟨along, hcontinues⟩
    cases along with
    | single first =>
      obtain rfl := Option.some.inj first
      exact .inl ⟨rfl, rfl⟩
    | @cons _ _ _ t _ q first target rest =>
      obtain rfl := Option.some.inj first
      obtain ⟨u, hu, hV⟩ := continues_nil_iff.mp (hcontinues [] f q.fields rfl q.ne_nil)
      obtain rfl : t = u := Option.some.inj (target.symm.trans hu.1.1)
      refine .inr ⟨t, q, hu, hV, rfl, rest, fun earlier g later hq hne => ?_⟩
      exact (continues_cons_iff target).mp
        (hcontinues (f :: earlier) g later (congrArg (f :: ·) hq) hne)
  · rintro (⟨rfl, rfl⟩ | ⟨t, q, hf, hV, rfl, rest, hcontinues⟩)
    · refine ⟨.single rfl, fun earlier g later hsplit hne => ?_⟩
      have hlength := congrArg List.length hsplit
      have hpos := List.length_pos_iff.mpr hne
      simp only [FieldPath.single, List.length_append, List.length_cons, List.length_nil] at hlength
      omega
    · refine ⟨.cons rfl hf.1.1 rest, fun earlier g later hsplit hne => ?_⟩
      cases earlier with
      | nil =>
        obtain ⟨rfl, -⟩ := List.cons.inj hsplit
        exact continues_nil_iff.mpr ⟨t, hf, hV⟩
      | cons first earlier =>
        obtain ⟨rfl, hq⟩ := List.cons.inj hsplit
        exact (continues_cons_iff hf.1.1).mpr (hcontinues earlier g later hq hne)

/-! ## The chains that a walk follows -/

/-- The chains from a list of fields are those from each field in turn. -/
theorem exists_chains_of_forall {fields : List Field} (h : ∀ f ∈ fields, ∃ chains,
      Lists (fun b p => Followed s allowed V [f] (0 :: b) p) chains ∧
        walk s allowed f V = chains.flatMap (verdict allowed V)) :
    ∃ chains, Lists (Followed s allowed V fields) chains ∧
      (fields.flatMap fun f => walk s allowed f V) = chains.flatMap (verdict allowed V) := by
  choose! chains hlists hwalk using h
  refine ⟨fields.flatMap chains, ?_, ?_⟩
  · have hblocks := Lists.flatMap (P := fun _ f b p => Followed s allowed V [f] (0 :: b) p)
      (f := chains) fun k f hf => hlists f (List.mem_of_getElem? hf)
    refine hblocks.congr fun a p => ?_
    cases a with
    | nil => simp [not_followed_nil]
    | cons k b =>
      rw [followed_cons_iff]
      exact ⟨fun ⟨_, _, f, ha, hf, hp⟩ => by cases ha; exact ⟨f, hf, hp⟩,
        fun ⟨f, hf, hp⟩ => ⟨k, b, f, rfl, hf, hp⟩⟩
  · rw [List.flatMap_assoc]
    exact List.flatMap_congr hwalk

/-- A walk that enters a field follows the chains from it. -/
theorem exists_chains_of_field (V : NameSet) (f : Field) : ∃ chains,
    Lists (fun b p => Followed s allowed V [f] (0 :: b) p) chains ∧
      walk s allowed f V = chains.flatMap (verdict allowed V) := by
  induction V, f using walk_induction s allowed with
  | stopped V f hstop =>
    refine ⟨[.single f], ?_, ?_⟩
    · refine ((Lists.nil (P := fun _ _ => False) (by simp)).cons (by simp)).congr fun b p => ?_
      rw [followed_single_iff, or_false]
      exact ⟨.inl, fun h => h.resolve_right fun ⟨t, _, ht, hV, _⟩ => hV (hstop t ht)⟩
    · rw [walk_of_stopped hstop, List.flatMap_singleton, verdict_single]
  | opened V f t hf ht ih =>
    obtain ⟨below, hlists, hwalk⟩ := exists_chains_of_forall ih
    refine ⟨.single f :: below.map (FieldPath.cons f), ?_, ?_⟩
    · refine ((hlists.map (FieldPath.cons f)).cons ?_).congr fun b p => ?_
      · rintro p ⟨q, hq, -⟩
        exact not_followed_nil hq
      · rw [followed_single_iff]
        refine or_congr_right ?_
        constructor
        · rintro ⟨q, hq, rfl⟩
          exact ⟨t, q, hf, ht, rfl, hq⟩
        · rintro ⟨u, q, hu, -, rfl, hq⟩
          obtain rfl : t = u := Option.some.inj (hf.1.1.symm.trans hu.1.1)
          exact ⟨q, hq, rfl⟩
    · rw [walk_of_opened hf ht, hwalk, List.flatMap_cons, verdict_single, List.flatMap_map]
      simp only [verdict_cons hf.1.1]

/-- A walk below a list of fields finds what is wrong with the last fields of all chains from
them, each chain taken once, in preorder: by the order of the fields in the list and below each
of them by the order in which its message declares its fields. It leaves the set of open
messages as it was. -/
theorem parameterFields_preorder (s : Schema) (allowed V : NameSet) (fields : List Field) :
    ∃ chains, Lists (Followed s allowed V fields) chains ∧
      parameterFields s allowed fields V = (chains.flatMap (verdict allowed V), V) := by
  obtain ⟨chains, hlists, hwalk⟩ :=
    exists_chains_of_forall fun f (_ : f ∈ fields) => exists_chains_of_field V f
  exact ⟨chains, hlists, by rw [parameterFields_eq, hwalk]⟩

end HttpTranscoding.Check
