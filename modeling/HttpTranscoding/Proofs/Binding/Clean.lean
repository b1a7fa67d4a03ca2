import HttpTranscoding.Check.Binding
import HttpTranscoding.Proofs.Binding.Coverage
import HttpTranscoding.Proofs.Query.Reachability
import Mathlib.Data.List.Chain

/-!
# Bindings in which nothing is wrong

What it means for the fields of a request that the checks of a binding find nothing. The
fields concerned are those that a client must be able to send outside the body, through
messages that are taken apart for it (`Exposed`).

* `Exposed.cases_of_clean`: such a field is itself bound to a path variable and fits
  there, holds a field that is, or is walked as a query parameter;
* `Nested.acyclic_of_clean`: a message that such a field holds does not contain itself.
  A path variable may lead some way around a cycle and hide it, but only so far: on going
  round often enough, one comes to fields that are walked as query parameters;
* `renders_of_clean`: such a field has a rendering.
-/

namespace HttpTranscoding

theorem WellKnownType.rendersAsSegment_eq (t : WellKnownType) :
    t.rendersAsSegment = t.rendersAsParameter := by
  cases t <;> rfl

/-- The name of the message that a field holds. -/
def Field.messageName? (f : Field) : Option String :=
  f.type.target.map (·.fullName)

theorem RequestBody.declared_eq_unbound {text : String} (h : declared text = unbound) :
    text = "*" := by
  grind [declared, named]

theorem RequestBody.declared_eq_field {text path : String} (h : declared text = field path) :
    path = text := by
  grind [declared, named]

namespace Check

open Relation (ReflTransGen TransGen)

variable {s : Schema} {o : Options} {method : Method} {rule : HttpRule} {b : Binding}

/-! ## What the checks leave -/

theorem segmentFault?_eq_none_iff {t : TypeRef} : segmentFault? t = none ↔
    ¬t.isMap ∧ ¬t.repeated ∧ (t.isMessage → t.wellKnown.rendersAsSegment) := by
  unfold segmentFault?
  grind

theorem parameters_of_clean (h : binding s o method b = []) :
    (parameterFields s o.allowed (b.paramFields.map (·.last)) ∅).1 = [] := by
  simp only [binding, List.append_eq_nil_iff] at h
  exact h.1.2

/-- Where nothing is wrong, every path variable is bound to a single value. -/
theorem segment_of_clean (h : binding s o method b = []) {p : FieldPath} (hp : p ∈ b.pathFields) :
    ¬p.type.repeated ∧ ∀ t, p.type.target = some t → t.wellKnown.rendersAsParameter := by
  simp only [binding, List.append_eq_nil_iff] at h
  have hnone : segmentFault? p.type = none := by
    cases hfault : segmentFault? p.type with
    | none => rfl
    | some fault =>
      have hmem : .pathSegment fault p ∈ segments b.pathFields :=
        List.mem_filterMap.mpr ⟨p, hp, by simp [hfault]⟩
      rw [h.2] at hmem
      exact absurd hmem List.not_mem_nil
  obtain ⟨-, hrep, hmessage⟩ := segmentFault?_eq_none_iff.mp hnone
  refine ⟨hrep, fun t ht => ?_⟩
  rw [← WellKnownType.rendersAsSegment_eq]
  simpa [TypeRef.wellKnown, ht] using hmessage (by simp [TypeRef.isMessage, ht])

/-! ## Exposed fields -/

/-- A field of the request that the body does not take and that can only be sent by taking
apart the messages on the way to it: no path variable is bound below a repeated one of them. -/
structure Exposed (s : Schema) (o : Options) (method : Method) (b : Binding) (d : FieldPath) :
    Prop where
  chain : s.Chain method.input.fullName d.fields
  not_body : ∀ p ∈ b.bodyFields, d.fields.head d.ne_nil ≠ p.last
  expandable : ∀ f ∈ d.fields.dropLast, ∃ t, f.Expandable o.allowed t
  not_bound : ∀ q : FieldPath, q.covers d → q.type.repeated →
    ∀ p ∈ b.pathFields, ¬q.isStrictPrefixOf p

/-- A binding resolved from a rule whose body is empty or one field, in which nothing is
wrong. -/
structure Clean (s : Schema) (o : Options) (method : Method) (rule : HttpRule) (b : Binding) :
    Prop where
  resolved : Binding.resolve s method.input rule = .ok b
  single : FieldPath.isSingleElement rule.body
  not_all : rule.body ≠ "*"
  nothing : binding s o method b = []

namespace Clean

theorem paramFields_eq (h : Clean s o method rule b) : b.leftOver = b.paramFields := by
  obtain ⟨-, -, -, -, hbody, -⟩ := Binding.resolve_eq_ok_iff.mp h.resolved
  unfold Binding.leftOver
  cases hb : b.body with
  | absent => rfl
  | unbound => exact absurd (RequestBody.declared_eq_unbound (hbody ▸ hb)) h.not_all
  | field path => rfl

/-- What is bound is bound to a path variable, unless it is the field that is the body. -/
theorem mem_bound (h : Clean s o method rule b) {p : FieldPath} (hp : p ∈ b.bound) :
    p ∈ b.pathFields ∨ p ∈ b.bodyFields ∧ ∃ f, p = .single f := by
  obtain ⟨-, -, -, -, hdeclared, -⟩ := Binding.resolve_eq_ok_iff.mp h.resolved
  obtain hpath | hbody := List.mem_append.mp hp
  · exact .inl hpath
  · cases hb : b.body with
    | absent => simp [hb] at hbody
    | unbound => simp [hb] at hbody
    | field path =>
      obtain ⟨q, hq, hfields⟩ := Binding.bodyFields_of_named h.resolved hb
      obtain rfl := RequestBody.declared_eq_field (hdeclared ▸ hb)
      obtain rfl : p = q := by simpa [hb, hfields] using hbody
      exact .inr ⟨by simp [hfields], FieldPath.exists_single_of_resolve h.single hq⟩

end Clean

/-- What a chain leads to is sent if a walk comes to where the chain begins. -/
theorem sent_of_chain {allowed : NameSet} {fields rest : List Field} {m : String}
    (hm : Reached s allowed fields m) (hrest : s.Chain m rest)
    (hexp : ∀ f ∈ rest.dropLast, ∃ t, f.Expandable allowed t) :
    Sent s allowed fields (rest.getLast hrest.ne_nil) := by
  induction hrest with
  | last field => exact .inr ⟨_, hm, field⟩
  | @cons m f t rest field target tail ih =>
    rw [List.dropLast_cons_of_ne_nil tail.ne_nil, List.forall_mem_cons] at hexp
    obtain ⟨⟨u, hu⟩, hexp⟩ := hexp
    obtain rfl : u = t := Option.some.inj (hu.1.1.symm.trans target)
    rw [List.getLast_cons tail.ne_nil]
    exact ih (hm.next (.single ⟨f, field, u, hu, rfl⟩)) hexp

namespace Exposed

variable {d p : FieldPath}

/-- A path towards an exposed field ends at a message that is taken apart. -/
theorem expandable_last (hd : Exposed s o method b d) (hp : p.isStrictPrefixOf d) :
    ∃ t, p.last.Expandable o.allowed t := by
  obtain ⟨rest, hne, hsplit⟩ := FieldPath.exists_append_of_isStrictPrefixOf hp
  refine hd.expandable p.last ?_
  rw [hsplit, FieldPath.dropLast_append_cons hne]
  exact List.mem_append_right _ List.mem_cons_self

/-- What is below a query parameter is sent along with it. -/
theorem sent_of_covers (hd : Exposed s o method b d) (hp : p ∈ b.paramFields)
    (hcov : p.covers d) : Sent s o.allowed (b.paramFields.map (·.last)) d.last := by
  have hmem : p.last ∈ b.paramFields.map (·.last) := List.mem_map_of_mem hp
  obtain rfl | hlt := FieldPath.covers_iff_eq_or.mp hcov
  · exact .inl hmem
  · obtain ⟨t, ht⟩ := hd.expandable_last hlt
    obtain ⟨rest, hne, hsplit⟩ := FieldPath.exists_append_of_isStrictPrefixOf hlt
    obtain ⟨u, target, hrest⟩ := Schema.Chain.right_of_append (hsplit ▸ hd.chain) hne
    obtain rfl : t = u := Option.some.inj (ht.1.1.symm.trans target)
    have hlast : d.last = rest.getLast hne := by
      simp [FieldPath.last, hsplit, List.getLast_cons hne]
    rw [hlast]
    refine sent_of_chain ⟨p.last, hmem, t, ht, .refl⟩ hrest fun f hf => hd.expandable f ?_
    rw [hsplit, FieldPath.dropLast_append_cons hne]
    exact List.mem_append_right _ (List.mem_cons_of_mem p.last hf)

/-- An exposed field is walked as a query parameter, holds a field that is bound to a path
variable, or is bound to one itself. -/
theorem cases_of_clean (hd : Exposed s o method b d) (h : Clean s o method rule b) :
    Sent s o.allowed (b.paramFields.map (·.last)) d.last ∨
      (∃ p ∈ b.pathFields, d.isStrictPrefixOf p) ∨ d ∈ b.pathFields := by
  obtain (⟨p, hp, hcov⟩ | ⟨p, hp, hlt⟩ | ⟨p, hp, hcov⟩) | ⟨-, q, hqd, hrep, p, hp, hqp⟩ :=
    Binding.sends_or_drops h.resolved hd.chain
  -- A path bound to a variable renders as a segment, so no exposed field lies below it.
  · obtain hpath | ⟨hbody, f, rfl⟩ := h.mem_bound hp
    · obtain rfl | hlt := FieldPath.covers_iff_eq_or.mp hcov
      · exact .inr (.inr hpath)
      · obtain ⟨t, ⟨target, -, hplain⟩, -⟩ := hd.expandable_last hlt
        exact absurd ((segment_of_clean h.nothing hpath).2 t target) hplain
    · obtain ⟨rest, hrest⟩ := FieldPath.covers_iff.mp hcov
      refine absurd ?_ (hd.not_body _ hbody)
      simp [← hrest, FieldPath.single, FieldPath.last]
  · obtain hpath | ⟨-, f, rfl⟩ := h.mem_bound hp
    · exact .inr (.inl ⟨p, hpath, hlt⟩)
    · exact absurd hlt FieldPath.not_isStrictPrefixOf_single
  · exact .inl (hd.sent_of_covers (h.paramFields_eq ▸ hp) hcov)
  · obtain hpath | ⟨-, f, rfl⟩ := h.mem_bound hp
    · have hcov := FieldPath.covers_iff_eq_or.mpr (.inr hqd)
      exact absurd hqp (hd.not_bound q hcov hrep p hpath)
    · exact absurd hqp FieldPath.not_isStrictPrefixOf_single

/-- Only single values are found on the way to or in a path variable. -/
theorem sent_or_not_repeated (hd : Exposed s o method b d) (h : Clean s o method rule b) :
    Sent s o.allowed (b.paramFields.map (·.last)) d.last ∨ ¬d.type.repeated := by
  obtain hsent | ⟨p, hp, hlt⟩ | hpath := hd.cases_of_clean h
  · exact .inl hsent
  · exact .inr fun hrep =>
      hd.not_bound d (FieldPath.covers_iff_eq_or.mpr (.inl rfl)) hrep p hp hlt
  · exact .inr (segment_of_clean h.nothing hpath).1

theorem not_isMap (hd : Exposed s o method b d) (h : Clean s o method rule b) :
    ¬d.type.isMap := by
  intro hmap
  obtain hsent | hrep := hd.sent_or_not_repeated h
  · have hmem := mapParameter_mem_parameterFields_iff.mpr ⟨hsent, hmap⟩
    rw [parameters_of_clean h.nothing] at hmem
    exact List.not_mem_nil hmem
  · simp [TypeRef.isMap, hrep] at hmap

theorem rendersAsParameter_or_mem_allowed (hd : Exposed s o method b d)
    (h : Clean s o method rule b) {t : MessageRef} (ht : d.type.target = some t)
    (hrep : d.type.repeated) :
    t.wellKnown.rendersAsParameter ∨ d.last.fullName ∈ o.allowed := by
  by_contra hnot
  obtain ⟨hplain, hname⟩ := not_or.mp hnot
  have hsent := (hd.sent_or_not_repeated h).resolve_right (not_not.mpr hrep)
  have hmem := repeatedParameter_or_cyclicParameter_mem hsent ⟨ht, hd.not_isMap h, hplain⟩ hrep hname
  rw [parameters_of_clean h.nothing] at hmem
  exact hmem.elim List.not_mem_nil List.not_mem_nil

end Exposed

/-! ## Messages in messages -/

/-- Whether messages of type `a` have a field that holds one message of type `b`, and not as
a parameter value. -/
def Nests (s : Schema) (a b : String) : Prop :=
  ∃ f ∈ s.fieldsOf a, ¬f.type.repeated ∧ ∃ t, f.Plain t ∧ t.fullName = b

theorem Nests.leads {allowed : NameSet} {x y : String} (h : Nests s x y) : Leads s allowed x y := by
  obtain ⟨f, hf, hrep, t, hplain, rfl⟩ := h
  exact ⟨f, hf, t, ⟨hplain, fun hallowed => hrep hallowed.1⟩, rfl⟩

theorem Sent.reached {allowed : NameSet} {fields : List Field} {g : Field} {t : MessageRef}
    (hg : Sent s allowed fields g) (ht : g.Expandable allowed t) :
    Reached s allowed fields t.fullName := by
  obtain hg | ⟨m, hm, hg⟩ := hg
  · exact ⟨g, hg, t, ht, .refl⟩
  · exact hm.next (.single ⟨g, hg, t, ht, rfl⟩)

/-- A path through fields that each hold one message, the last of them `t`. -/
structure Nested (s : Schema) (m : String) (d : FieldPath) (t : MessageRef) : Prop where
  chain : s.Chain m d.fields
  single : ∀ f ∈ d.fields, ¬f.type.repeated ∧ ∃ u, f.Plain u
  last : d.last.Plain t

namespace Nested

variable {m : String} {d : FieldPath} {t : MessageRef}

theorem extend {f : Field} {u : MessageRef} (hd : Nested s m d t) (hf : f ∈ s.fieldsOf t.fullName)
    (hrep : ¬f.type.repeated) (hu : f.Plain u) : Nested s m (d.extend f) u where
  chain := hd.chain.concat hd.last.1 hf
  single := by
    simp only [FieldPath.extend, List.forall_mem_append, List.forall_mem_singleton]
    exact ⟨hd.single, hrep, u, hu⟩
  last := by simpa [FieldPath.extend, FieldPath.last] using hu

theorem exposed (hd : Nested s method.input.fullName d t)
    (hbody : ∀ p ∈ b.bodyFields, d.fields.head d.ne_nil ≠ p.last) : Exposed s o method b d where
  chain := hd.chain
  not_body := hbody
  expandable := fun f hf => by
    obtain ⟨hrep, u, hu⟩ := hd.single f (List.mem_of_mem_dropLast hf)
    exact ⟨u, hu, fun hallowed => hrep hallowed.1⟩
  not_bound := fun q hcov hrep => by
    have hmem : q.last ∈ d.fields :=
      (FieldPath.covers_iff.mp hcov).subset (List.getLast_mem q.ne_nil)
    exact absurd hrep (hd.single _ hmem).1

/-- A walk takes a message apart that lies deeper than every path variable. -/
theorem reached_of_clean (hd : Nested s method.input.fullName d t)
    (h : Clean s o method rule b) (hbody : ∀ p ∈ b.bodyFields, d.fields.head d.ne_nil ≠ p.last)
    (hlong : ∀ p ∈ b.pathFields, p.fields.length ≤ d.fields.length) :
    Reached s o.allowed (b.paramFields.map (·.last)) t.fullName := by
  have hrep : ¬d.last.type.repeated := (hd.single _ (List.getLast_mem d.ne_nil)).1
  obtain hsent | ⟨p, hp, hlt⟩ | hpath := (hd.exposed hbody).cases_of_clean h
  · exact hsent.reached ⟨hd.last, fun hallowed => hrep hallowed.1⟩
  · have hlength := FieldPath.length_lt_of_isStrictPrefixOf hlt
    have := hlong p hp
    omega
  · exact absurd ((segment_of_clean h.nothing hpath).2 t hd.last.1) hd.last.2.2

/-- A path to a message that contains itself goes on as long as one likes. -/
theorem exists_longer (hd : Nested s m d t) (hcycle : TransGen (Nests s) t.fullName t.fullName)
    (n : Nat) : ∃ e u, Nested s m e u ∧ e.fields.head e.ne_nil = d.fields.head d.ne_nil ∧
      n ≤ e.fields.length ∧ TransGen (Nests s) u.fullName t.fullName := by
  induction n with
  | zero => exact ⟨d, t, hd, rfl, Nat.zero_le _, hcycle⟩
  | succ n ih =>
    obtain ⟨e, u, he, hhead, hlong, hu⟩ := ih
    obtain ⟨_, ⟨f, hf, hrep, v, hv, rfl⟩, hvt⟩ := TransGen.head'_iff.mp hu
    refine ⟨e.extend f, v, he.extend hf hrep hv, ?_, ?_, ?_⟩
    · rw [← hhead]
      simp only [FieldPath.extend, List.head_append_of_ne_nil e.ne_nil]
    · simpa [FieldPath.extend] using hlong
    · obtain heq | hvt := Relation.reflTransGen_iff_eq_or_transGen.mp hvt
      · exact heq ▸ hcycle
      · exact hvt

/-- Where nothing is wrong, no message contains itself that the body does not take. -/
theorem acyclic_of_clean (hd : Nested s method.input.fullName d t)
    (h : Clean s o method rule b) (hbody : ∀ p ∈ b.bodyFields, d.fields.head d.ne_nil ≠ p.last) :
    ¬TransGen (Nests s) t.fullName t.fullName := by
  intro hcycle
  obtain ⟨e, u, he, hhead, hlong, hut⟩ :=
    hd.exists_longer hcycle (b.pathFields.map (·.fields)).flatten.length
  have hu : Reached s o.allowed (b.paramFields.map (·.last)) u.fullName := by
    refine he.reached_of_clean h (fun p hp => hhead ▸ hbody p hp) fun p hp => ?_
    exact (List.sublist_flatten_of_mem (List.mem_map_of_mem hp)).length_le.trans hlong
  have leads : ∀ {x y}, ReflTransGen (Nests s) x y → ReflTransGen (Leads s o.allowed) x y :=
    fun hxy => ReflTransGen.mono (fun _ _ => Nests.leads) _ _ hxy
  -- The last step around the cycle goes from a message that is reached to one that is.
  obtain ⟨a, hta, g, hg, -, v, hv, hvt⟩ := TransGen.tail'_iff.mp hcycle
  have ht := hu.next (leads hut.to_reflTransGen)
  obtain ⟨g', hg'⟩ := exists_cyclicParameter_mem_iff.mpr
    ⟨a, t.fullName, ht.next (leads hta), ht, leads hta, g, hg, v, hv, hvt⟩
  rw [parameters_of_clean h.nothing] at hg'
  exact List.not_mem_nil hg'

/-- Every message on such a path has one of its own that leads to it. -/
theorem exists_of_mem {f : Field} {u : MessageRef} (hd : Nested s m d t) (hf : f ∈ d.fields)
    (hu : f.Plain u) :
    ∃ e, Nested s m e u ∧ e.fields.head e.ne_nil = d.fields.head d.ne_nil := by
  obtain ⟨init, rest, hsplit⟩ := List.append_of_mem hf
  refine ⟨⟨init ++ [f], by simp⟩, ⟨(hsplit ▸ hd.chain).left_of_append, fun g hg => ?_, ?_⟩, ?_⟩
  · refine hd.single g ?_
    rw [hsplit]
    simp only [List.mem_append, List.mem_singleton] at hg
    grind
  · simpa [FieldPath.last] using hu
  · cases init <;> simp [hsplit]

end Nested

/-! ## Cycles and renderings -/

/-- Along a path through single messages, each message contains all those after it. -/
theorem pairwise_transGen {m : String} {d : List Field} (hd : s.Chain m d)
    (hsingle : ∀ f ∈ d, ¬f.type.repeated ∧ ∃ u, f.Plain u) :
    (m :: d.filterMap (·.messageName?)).Pairwise (TransGen (Nests s)) := by
  have hchain : (m :: d.filterMap (·.messageName?)).IsChain (Nests s) := by
    induction hd with
    | @last m f field =>
      obtain ⟨hrep, u, hu⟩ := hsingle f List.mem_cons_self
      have hname : f.messageName? = some u.fullName := by simp [Field.messageName?, hu.1]
      simp only [List.filterMap_cons, hname, List.filterMap_nil, List.isChain_pair]
      exact ⟨f, field, hrep, u, hu, rfl⟩
    | @cons m f t rest field target tail ih =>
      obtain ⟨⟨hrep, u, hu⟩, hsingle⟩ := List.forall_mem_cons.mp hsingle
      obtain rfl : u = t := Option.some.inj (hu.1.symm.trans target)
      have hname : f.messageName? = some u.fullName := by simp [Field.messageName?, hu.1]
      simp only [List.filterMap_cons, hname, List.isChain_cons_cons]
      exact ⟨⟨f, field, hrep, u, hu, rfl⟩, ih hsingle⟩
  exact List.isChain_iff_pairwise.mp (hchain.imp fun _ _ => .single)

/-- Where nothing is wrong, a path through single messages comes to each of them once. -/
theorem Nested.nodup_of_clean {d : FieldPath} {t : MessageRef}
    (hd : Nested s method.input.fullName d t) (h : Clean s o method rule b)
    (hbody : ∀ p ∈ b.bodyFields, d.fields.head d.ne_nil ≠ p.last) :
    (method.input.fullName :: d.fields.filterMap (·.messageName?)).Nodup := by
  have hacyclic : ∀ x ∈ d.fields.filterMap (·.messageName?), ¬TransGen (Nests s) x x := by
    intro x hx
    obtain ⟨f, hf, hname⟩ := List.mem_filterMap.mp hx
    obtain ⟨-, u, hu⟩ := hd.single f hf
    obtain rfl : u.fullName = x := by simpa [Field.messageName?, hu.1] using hname
    obtain ⟨e, he, hhead⟩ := hd.exists_of_mem hf hu
    exact he.acyclic_of_clean h fun p hp => hhead ▸ hbody p hp
  obtain ⟨hinput, hrest⟩ := List.pairwise_cons.mp (pairwise_transGen hd.chain hd.single)
  refine List.nodup_cons.mpr ⟨fun hm => hacyclic _ hm (hinput _ hm), ?_⟩
  refine hrest.imp_of_mem fun {x y} hx _ hxy => ?_
  rintro rfl
  exact hacyclic x hx hxy

/-- Where nothing is wrong with a binding, whatever field of the request it exposes has a
rendering: it is no map, as a repeated message it renders as a parameter or is allowed, and
if it holds a single message, then that message differs from all those on the way to it and
does not contain itself. -/
theorem renders_of_clean {d : FieldPath} (h : Clean s o method rule b)
    (hd : Exposed s o method b d) :
    ¬d.type.isMap ∧
    (∀ t, d.type.target = some t → d.type.repeated →
      t.wellKnown.rendersAsParameter ∨ d.last.fullName ∈ o.allowed) ∧
    (∀ t, d.type.target = some t → ¬t.wellKnown.rendersAsParameter →
      (∀ f ∈ d.fields, ¬f.type.repeated) →
      (method.input.fullName :: d.fields.filterMap (·.messageName?)).Nodup ∧
        ¬TransGen (Nests s) t.fullName t.fullName) := by
  refine ⟨hd.not_isMap h, fun t ht hrep => hd.rendersAsParameter_or_mem_allowed h ht hrep, ?_⟩
  intro t ht hplain hsingle
  have hlast : d.last.Plain t := ⟨ht, hd.not_isMap h, hplain⟩
  have hd' : Nested s method.input.fullName d t := by
    refine ⟨hd.chain, fun f hf => ⟨hsingle f hf, ?_⟩, hlast⟩
    rw [← List.dropLast_concat_getLast d.ne_nil, List.mem_append, List.mem_singleton] at hf
    obtain hf | rfl := hf
    · obtain ⟨u, hu, -⟩ := hd.expandable f hf
      exact ⟨u, hu⟩
    · exact ⟨t, hlast⟩
  exact ⟨hd'.nodup_of_clean h hd.not_body, hd'.acyclic_of_clean h hd.not_body⟩

/-! ## A field beside a path variable -/

def teamTitle : Field := ⟨"v1.Team", 0, "title", 1, ⟨.string, false, none⟩⟩

def ownerEmail : Field := ⟨"v1.Owner", 0, "email", 1, ⟨.string, false, none⟩⟩

def ownerTeam : Field := ⟨"v1.Owner", 1, "team", 2, ⟨.message, false, some ⟨"v1.Team", false⟩⟩⟩

def folderOwner : Field := ⟨"v1.Folder", 0, "owner", 1, ⟨.message, false, some ⟨"v1.Owner", false⟩⟩⟩

/-- Folders, their owners, and the teams of the owners. -/
def folderSchema : Schema where
  messages := [⟨"v1.Team", "folders.proto", false, [teamTitle]⟩,
    ⟨"v1.Owner", "folders.proto", false, [ownerEmail, ownerTeam]⟩,
    ⟨"v1.Folder", "folders.proto", false, [folderOwner]⟩]
  methods := []
  targets := ["folders.proto"]

/-- A rule that binds one field of the owner. -/
def folderRule : HttpRule :=
  ⟨some (.standard .get "/v1/{owner.email}"), "", "", []⟩

def getFolder : Method :=
  ⟨"v1.Folders.GetFolder", ⟨"v1.Folder", false⟩, ⟨"v1.Folder", false⟩, some folderRule,
    .ofElement "folders.proto" "v1.Folders.GetFolder"⟩

def folderBinding : Binding :=
  ⟨some .get, "/v1/{owner.email}", .absent, [], [.cons folderOwner (.single ownerEmail)],
    [.cons folderOwner (.single ownerTeam)], "", 0⟩

theorem clean_folderBinding :
    Clean folderSchema .default getFolder folderRule folderBinding where
  resolved := by
    have hnames : PathTemplate.namesIn folderRule.template = ["owner.email"] := by cbv
    exact Binding.resolve_of_namesIn_eq hnames rfl (by decide +kernel)
  single := by decide
  not_all := by decide
  nothing := rfl

theorem nested_ownerTeam :
    Nested folderSchema "v1.Folder" (.cons folderOwner (.single ownerTeam)) ⟨"v1.Team", false⟩ where
  chain := .cons (t := ⟨"v1.Owner", false⟩) (by decide) rfl (.last (by decide))
  single := by
    have howner : folderOwner.Plain ⟨"v1.Owner", false⟩ := ⟨rfl, by decide, by decide⟩
    have hteam : ownerTeam.Plain ⟨"v1.Team", false⟩ := ⟨rfl, by decide, by decide⟩
    simp only [FieldPath.cons, FieldPath.single, List.forall_mem_cons]
    exact ⟨⟨by decide, _, howner⟩, ⟨by decide, _, hteam⟩, List.forall_mem_nil _⟩
  last := ⟨rfl, by decide, by decide⟩

/-- The team of the owner of a folder, beside the field that is bound. -/
theorem renders_ownerTeam :
    Clean folderSchema .default getFolder folderRule folderBinding ∧
      Exposed folderSchema .default getFolder folderBinding
        (.cons folderOwner (.single ownerTeam)) ∧
      ["v1.Folder", "v1.Owner", "v1.Team"].Nodup ∧
      ¬TransGen (Nests folderSchema) "v1.Team" "v1.Team" := by
  have exposed : Exposed folderSchema .default getFolder folderBinding
      (.cons folderOwner (.single ownerTeam)) :=
    nested_ownerTeam.exposed fun _ hp => absurd hp List.not_mem_nil
  exact ⟨clean_folderBinding, exposed, (renders_of_clean clean_folderBinding exposed).2.2
    ⟨"v1.Team", false⟩ rfl (by decide) (by decide)⟩

end Check

end HttpTranscoding
