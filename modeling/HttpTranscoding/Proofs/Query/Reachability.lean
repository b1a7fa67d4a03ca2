import HttpTranscoding.Proofs.Query.Walk
import Mathlib.Logic.Relation

/-!
# Reachability through query parameters

A walk goes along every path through the messages of a schema that takes no
message apart twice. What it finds can be said without paths: a message leads to
those that its fields are taken apart into (`Leads`), and the fields of all the
messages that are reached in this way (`Reached`) are the fields that are sent
(`Sent`).

* `exists_opens_of_reflTransGen`: a walk takes apart every message that is reached.
  A message in the way of a path is open already, so it was come to before;
* `Descent.reached`: it takes apart no others;
* `parameterFields_exact`: which violations are found among the fields sent, and
  that a cycle is found if and only if there is one.
-/

namespace HttpTranscoding.Check

open Relation (ReflTransGen)

variable {s : Schema} {allowed : NameSet}

/-- Whether the message `a` has a field that is taken apart into the message `b`. -/
def Leads (s : Schema) (allowed : NameSet) (a b : String) : Prop :=
  ∃ f ∈ s.fieldsOf a, ∃ t, f.Expandable allowed t ∧ t.fullName = b

/-- Whether taking apart some of the fields, and what they lead to, reaches the message `m`. -/
def Reached (s : Schema) (allowed : NameSet) (fields : List Field) (m : String) : Prop :=
  ∃ f ∈ fields, ∃ t, f.Expandable allowed t ∧ ReflTransGen (Leads s allowed) t.fullName m

/-- Whether `g` is one of the fields or belongs to a message that they reach. -/
def Sent (s : Schema) (allowed : NameSet) (fields : List Field) (g : Field) : Prop :=
  g ∈ fields ∨ ∃ m, Reached s allowed fields m ∧ g ∈ s.fieldsOf m

theorem Reached.next {fields : List Field} {a b : String} (ha : Reached s allowed fields a)
    (hab : ReflTransGen (Leads s allowed) a b) : Reached s allowed fields b := by
  obtain ⟨f, hf, t, ht, hta⟩ := ha
  exact ⟨f, hf, t, ht, hta.trans hab⟩

/-! ## What a walk comes to -/

/-- Going on below the field that a walk has come to. -/
theorem Descent.next {V W : NameSet} {f g h : Field} {t : MessageRef}
    (hd : Descent s allowed V f W g) (hg : g.Expandable allowed t) (ht : t.fullName ∉ W)
    (hh : h ∈ s.fieldsOf t.fullName) : Descent s allowed V f (W.insert t.fullName) h := by
  induction hd with
  | here => exact .down hg ht hh .here
  | down opens fresh field _ ih => exact .down opens fresh field (ih hg ht)

/-- `Opens s allowed V f W m`: a walk that enters `f` while the messages of `V` are open takes
the message `m` apart; those of `W` are open then. -/
def Opens (s : Schema) (allowed V : NameSet) (f : Field) (W : NameSet) (m : String) : Prop :=
  m ∈ W ∧ ∀ g ∈ s.fieldsOf m, Descent s allowed V f W g

theorem Opens.start {V : NameSet} {f : Field} {t : MessageRef} (hf : f.Expandable allowed t)
    (ht : t.fullName ∉ V) : Opens s allowed V f (V.insert t.fullName) t.fullName :=
  ⟨NameSet.mem_insert_self V _, fun _ hg => .down hf ht hg .here⟩

theorem Opens.next {V W : NameSet} {f g : Field} {m : String} {t : MessageRef}
    (ho : Opens s allowed V f W m) (hg : g ∈ s.fieldsOf m) (ht : g.Expandable allowed t)
    (hW : t.fullName ∉ W) : Opens s allowed V f (W.insert t.fullName) t.fullName :=
  ⟨NameSet.mem_insert_self W _, fun _ hh => (ho.2 g hg).next ht hW hh⟩

/-- What is open where a walk has come to, and was not when it began, it took apart itself. -/
theorem Descent.exists_opens {V W : NameSet} {f g : Field} {m : String}
    (hd : Descent s allowed V f W g) (hm : m ∈ W) (hV : m ∉ V) :
    ∃ W', Opens s allowed V f W' m := by
  induction hd with
  | here => exact absurd hm hV
  | @down V W f g h t opens fresh field _ ih =>
    by_cases hmt : m = t.fullName
    · subst hmt
      exact ⟨_, .start opens fresh⟩
    · have hins : m ∉ V.insert t.fullName := by
        rw [NameSet.mem_insert]
        exact fun h => h.elim hmt hV
      obtain ⟨W', hmW, hall⟩ := ih hm hins
      exact ⟨W', hmW, fun g' hg' => .down opens fresh field (hall g' hg')⟩

/-- A walk that begins with nothing open takes apart whatever its field leads to. -/
theorem exists_opens_of_reflTransGen {f : Field} {t : MessageRef} {m : String}
    (hf : f.Expandable allowed t) (hm : ReflTransGen (Leads s allowed) t.fullName m) :
    ∃ W, Opens s allowed ∅ f W m := by
  induction hm with
  | refl => exact ⟨_, .start hf Std.ExtTreeSet.not_mem_empty⟩
  | tail _ hlead ih =>
    obtain ⟨W, ho⟩ := ih
    obtain ⟨g, hg, u, hu, rfl⟩ := hlead
    by_cases hW : u.fullName ∈ W
    -- It is open, so the walk came to it on the way here.
    · exact (ho.2 g hg).exists_opens hW Std.ExtTreeSet.not_mem_empty
    · exact ⟨_, ho.next hg hu hW⟩

/-- A walk comes to fields of the messages that its field leads to, and what is open there
leads there. -/
theorem Descent.reached {V W : NameSet} {f g : Field} (hd : Descent s allowed V f W g) :
    (W = V ∧ g = f) ∨ ∃ t m, f.Expandable allowed t ∧
      ReflTransGen (Leads s allowed) t.fullName m ∧ g ∈ s.fieldsOf m ∧
      ∀ n ∈ W, n ∈ V ∨ ReflTransGen (Leads s allowed) t.fullName n ∧
        ReflTransGen (Leads s allowed) n m := by
  induction hd with
  | here => exact .inl ⟨rfl, rfl⟩
  | @down V W f g h t opens fresh field _ ih =>
    refine .inr ?_
    obtain ⟨rfl, rfl⟩ | ⟨u, m, hu, hum, hh, hopen⟩ := ih
    · refine ⟨t, t.fullName, opens, .refl, field, fun n hn => ?_⟩
      obtain rfl | hn := NameSet.mem_insert.mp hn
      · exact .inr ⟨.refl, .refl⟩
      · exact .inl hn
    · have htu : Leads s allowed t.fullName u.fullName := ⟨g, field, u, hu, rfl⟩
      refine ⟨t, m, opens, .head htu hum, hh, fun n hn => ?_⟩
      obtain hn | ⟨hun, hnm⟩ := hopen n hn
      · obtain rfl | hn := NameSet.mem_insert.mp hn
        · exact .inr ⟨.refl, .head htu hum⟩
        · exact .inl hn
      · exact .inr ⟨.head htu hun, hnm⟩

/-! ## What a walk finds -/

variable {fields : List Field}

theorem mem_parameterFields_iff {v : Violation} :
    v ∈ (parameterFields s allowed fields ∅).1 ↔
      ∃ f ∈ fields, ∃ W g, Descent s allowed ∅ f W g ∧ v ∈ faults allowed W g := by
  simp only [parameterFields_eq, List.mem_flatMap, mem_walk_iff]

theorem sent_iff_exists_descent {g : Field} :
    Sent s allowed fields g ↔ ∃ f ∈ fields, ∃ W, Descent s allowed ∅ f W g := by
  constructor
  · rintro (hg | ⟨m, ⟨f, hf, t, ht, htm⟩, hg⟩)
    · exact ⟨g, hg, ∅, .here⟩
    · obtain ⟨W, ho⟩ := exists_opens_of_reflTransGen ht htm
      exact ⟨f, hf, W, ho.2 g hg⟩
  · rintro ⟨f, hf, W, hd⟩
    obtain ⟨-, rfl⟩ | ⟨t, m, ht, htm, hg, -⟩ := hd.reached
    · exact .inl hf
    · exact .inr ⟨m, ⟨f, hf, t, ht, htm⟩, hg⟩

theorem mapParameter_mem_parameterFields_iff {g : Field} :
    .mapParameter g ∈ (parameterFields s allowed fields ∅).1 ↔
      Sent s allowed fields g ∧ g.type.isMap := by
  rw [mem_parameterFields_iff, sent_iff_exists_descent]
  constructor
  · rintro ⟨f, hf, W, h, hd, hv⟩
    obtain ⟨rfl, hmap⟩ := mapParameter_mem_faults_iff.mp hv
    exact ⟨⟨f, hf, W, hd⟩, hmap⟩
  · rintro ⟨⟨f, hf, W, hd⟩, hmap⟩
    exact ⟨f, hf, W, g, hd, mapParameter_mem_faults_iff.mpr ⟨rfl, hmap⟩⟩

/-- A repeated message that is sent and not allowed is found, though perhaps as a cycle. -/
theorem repeatedParameter_or_cyclicParameter_mem {g : Field} {t : MessageRef}
    (hg : Sent s allowed fields g) (hplain : g.Plain t) (hrep : g.type.repeated)
    (hname : g.fullName ∉ allowed) :
    .repeatedParameter g ∈ (parameterFields s allowed fields ∅).1 ∨
      .cyclicParameter g ∈ (parameterFields s allowed fields ∅).1 := by
  obtain ⟨f, hf, W, hd⟩ := sent_iff_exists_descent.mp hg
  simp only [mem_parameterFields_iff]
  by_cases hW : t.fullName ∈ W
  · exact .inr ⟨f, hf, W, g, hd, cyclicParameter_mem_faults_iff.mpr ⟨rfl, t, hplain, hW⟩⟩
  · exact .inl ⟨f, hf, W, g, hd,
      repeatedParameter_mem_faults_iff.mpr ⟨rfl, hrep, hname, t, hplain, hW⟩⟩

theorem of_repeatedParameter_mem {g : Field}
    (h : .repeatedParameter g ∈ (parameterFields s allowed fields ∅).1) :
    Sent s allowed fields g ∧ (∃ t, g.Plain t) ∧ g.type.repeated ∧ g.fullName ∉ allowed := by
  obtain ⟨f, hf, W, h, hd, hv⟩ := mem_parameterFields_iff.mp h
  obtain ⟨rfl, hrep, hname, t, hplain, -⟩ := repeatedParameter_mem_faults_iff.mp hv
  exact ⟨sent_iff_exists_descent.mpr ⟨f, hf, W, hd⟩, ⟨t, hplain⟩, hrep, hname⟩

/-- On the way from an open message to another a walk finds a cycle, or it gets there with the
first one still open. -/
theorem cyclicParameter_or_opens {f : Field} {W : NameSet} {a b : String}
    (ho : Opens s allowed ∅ f W b) (hba : ReflTransGen (Leads s allowed) b a) :
    (∃ g, .cyclicParameter g ∈ walk s allowed f ∅) ∨
      ∃ W', b ∈ W' ∧ Opens s allowed ∅ f W' a := by
  induction hba with
  | refl => exact .inr ⟨W, ho.1, ho⟩
  | tail _ hlead ih =>
    obtain hcyclic | ⟨W', hb, ho'⟩ := ih
    · exact .inl hcyclic
    · obtain ⟨g, hg, u, hu, rfl⟩ := hlead
      by_cases hW : u.fullName ∈ W'
      · refine .inl ⟨g, mem_walk_of_descent (ho'.2 g hg) ?_⟩
        exact cyclicParameter_mem_faults_iff.mpr ⟨rfl, u, hu.1, hW⟩
      · exact .inr ⟨_, NameSet.mem_insert.mpr (.inr hb), ho'.next hg hu hW⟩

/-- A cycle is found if and only if some message reached leads to one that has a field of
its type, be it a field that the walk does not go below. -/
theorem exists_cyclicParameter_mem_iff :
    (∃ g, .cyclicParameter g ∈ (parameterFields s allowed fields ∅).1) ↔
      ∃ a b, Reached s allowed fields a ∧ Reached s allowed fields b ∧
        ReflTransGen (Leads s allowed) b a ∧
        ∃ g ∈ s.fieldsOf a, ∃ t, g.Plain t ∧ t.fullName = b := by
  constructor
  · rintro ⟨g, hg⟩
    obtain ⟨f, hf, W, h, hd, hv⟩ := mem_parameterFields_iff.mp hg
    obtain ⟨rfl, t, hplain, hW⟩ := cyclicParameter_mem_faults_iff.mp hv
    obtain ⟨rfl, -⟩ | ⟨u, m, hu, hum, hgm, hopen⟩ := hd.reached
    · exact absurd hW Std.ExtTreeSet.not_mem_empty
    · obtain hn | ⟨hut, htm⟩ := hopen _ hW
      · exact absurd hn Std.ExtTreeSet.not_mem_empty
      · exact ⟨m, t.fullName, ⟨f, hf, u, hu, hum⟩, ⟨f, hf, u, hu, hut⟩, htm, g, hgm, t, hplain, rfl⟩
  · rintro ⟨a, -, -, ⟨f, hf, u, hu, hub⟩, hba, g, hg, t, hplain, rfl⟩
    simp only [parameterFields_eq, List.mem_flatMap]
    obtain ⟨W, ho⟩ := exists_opens_of_reflTransGen hu hub
    obtain ⟨g', hcyclic⟩ | ⟨W', ht, ho'⟩ := cyclicParameter_or_opens ho hba
    · exact ⟨g', f, hf, hcyclic⟩
    · refine ⟨g, f, hf, mem_walk_of_descent (ho'.2 g hg) ?_⟩
      exact cyclicParameter_mem_faults_iff.mpr ⟨rfl, t, hplain, ht⟩

/-- What a walk finds when it begins with nothing open. Every map that is sent is found, and
nothing else as a map. Every repeated message that is sent and not allowed is found, if not as
such then as a cycle, and nothing else as a repeated message. A cycle is found if and only if
of the messages reached one leads to another, or to itself, that has a field of its type. -/
theorem parameterFields_exact (s : Schema) (o : Options) (fields : List Field) :
    (∀ g, .mapParameter g ∈ (parameterFields s o.allowed fields ∅).1 ↔
      Sent s o.allowed fields g ∧ g.type.isMap) ∧
    (∀ g t, Sent s o.allowed fields g → g.Plain t → g.type.repeated → g.fullName ∉ o.allowed →
      .repeatedParameter g ∈ (parameterFields s o.allowed fields ∅).1 ∨
        .cyclicParameter g ∈ (parameterFields s o.allowed fields ∅).1) ∧
    (∀ g, .repeatedParameter g ∈ (parameterFields s o.allowed fields ∅).1 →
      Sent s o.allowed fields g ∧ (∃ t, g.Plain t) ∧ g.type.repeated ∧
        g.fullName ∉ o.allowed) ∧
    ((∃ g, .cyclicParameter g ∈ (parameterFields s o.allowed fields ∅).1) ↔
      ∃ a b, Reached s o.allowed fields a ∧ Reached s o.allowed fields b ∧
        ReflTransGen (Leads s o.allowed) b a ∧
        ∃ g ∈ s.fieldsOf a, ∃ t, g.Plain t ∧ t.fullName = b) :=
  ⟨fun _ => mapParameter_mem_parameterFields_iff,
    fun _ _ => repeatedParameter_or_cyclicParameter_mem, fun _ => of_repeatedParameter_mem,
    exists_cyclicParameter_mem_iff⟩

end HttpTranscoding.Check
