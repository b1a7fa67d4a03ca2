import HttpTranscoding.Proofs.Binding.Unbound
import HttpTranscoding.Proofs.Query.Chains
import HttpTranscoding.Proofs.Schema.Fields

/-!
# The paths that are left over

What the bound paths leave over of a message, said of whole paths and not of remainders. A path
is left over if it does not meet a bound path and could not be shorter: every path that leads
towards it leads towards a bound one and ends in a field that holds one message
(`FieldPath.LeftOver`). `Spared` says the same of a chain of fields and of what the bound paths
have left to go, in a form that follows the recursion on the remainders.

* `lists_unbound`: the paths left over, in the order of declaration;
* `searchUnbound_eq`: a search that looks at whole paths finds them, and it takes apart no more
  messages inside each other than the longest bound path has fields;
* `unbound_exact`: both, and that what is left over is no more and no less than is needed.
-/

namespace HttpTranscoding

variable {s : Schema} {m : String}

/-! ## Spared chains -/

section Spared

variable {bound : List (List Field)}

/-- The chain does not meet a bound path, but every shorter way into it leads towards one and
ends in a field that is not repeated. -/
structure Spared (bound : List (List Field)) (d : List Field) : Prop where
  free : ∀ b ∈ bound, ¬b <+: d ∧ ¬d <+: b
  through : ∀ init g rest, d = init ++ g :: rest → rest ≠ [] →
    ¬g.type.repeated ∧ ∃ b ∈ bound, init ++ [g] <+: b

theorem spared_single_iff {f : Field} (hne : [] ∉ bound) :
    Spared bound [f] ↔ remainders f bound = [] := by
  rw [remainders_eq_nil_iff]
  constructor
  · exact fun h rest hrest => (h.free _ hrest).2 ⟨rest, rfl⟩
  · refine fun h => ⟨fun b hb => ?_, fun init g rest hsplit hrest => ?_⟩
    · cases b with
      | nil => exact absurd hb hne
      | cons g rest =>
        have hgf : g ≠ f := fun e => h rest (e ▸ hb)
        simp [List.cons_prefix_cons, hgf, Ne.symm hgf]
    · have hlength := congrArg List.length hsplit
      have hpos := List.length_pos_iff.mpr hrest
      simp only [List.length_append, List.length_cons, List.length_nil] at hlength
      omega

theorem spared_cons_iff {f : Field} {d : List Field} (hne : [] ∉ bound) (hd : d ≠ []) :
    Spared bound (f :: d) ↔ remainders f bound ≠ [] ∧ [] ∉ remainders f bound ∧
      ¬f.type.repeated ∧ Spared (remainders f bound) d := by
  constructor
  · intro h
    obtain ⟨hrep, b, hb, hfb⟩ := h.through [] f d rfl hd
    obtain ⟨rest, rfl⟩ := hfb
    have hrest : rest ∈ remainders f bound := mem_remainders.mpr hb
    refine ⟨List.ne_nil_of_mem hrest, fun past => ?_, hrep, fun b hb => ?_, ?_⟩
    · exact (h.free _ (mem_remainders.mp past)).1 ⟨d, rfl⟩
    · simpa [List.cons_prefix_cons] using h.free _ (mem_remainders.mp hb)
    · intro init g rest hsplit hrest
      obtain ⟨hrep, b, hb, c, rfl⟩ := h.through (f :: init) g rest (congrArg (f :: ·) hsplit) hrest
      exact ⟨hrep, init ++ [g] ++ c, mem_remainders.mpr hb, ⟨c, rfl⟩⟩
  · rintro ⟨through, past, hrep, h⟩
    refine ⟨fun b hb => ?_, fun init g rest hsplit hrest => ?_⟩
    · cases b with
      | nil => exact absurd hb hne
      | cons g b =>
        by_cases hgf : g = f
        · subst hgf
          simpa [List.cons_prefix_cons] using h.free b (mem_remainders.mpr hb)
        · simp [List.cons_prefix_cons, hgf, Ne.symm hgf]
    · cases init with
      | nil =>
        obtain ⟨rfl, -⟩ := List.cons.inj hsplit
        obtain ⟨b, hb⟩ := List.exists_mem_of_ne_nil _ through
        exact ⟨hrep, f :: b, mem_remainders.mp hb, ⟨b, rfl⟩⟩
      | cons f' init =>
        obtain ⟨rfl, htail⟩ := List.cons.inj hsplit
        obtain ⟨hrep, b, hb, hpre⟩ := h.through init g rest htail hrest
        exact ⟨hrep, f :: b, mem_remainders.mp hb, List.cons_prefix_cons.mpr ⟨rfl, hpre⟩⟩

/-- The path begins with `f` and is spared: it is `f` alone if no bound path begins with `f`, or
else, where `f` may be gone through, it goes on to what is spared by the remainders. The address
is that of the path in the message that `f` holds. -/
def SparedFrom (s : Schema) (bound : List (List Field)) (f : Field) (a : List Nat)
    (p : FieldPath) : Prop :=
  remainders f bound = [] ∧ a = [] ∧ p = .single f ∨
    ∃ t q, remainders f bound ≠ [] ∧ [] ∉ remainders f bound ∧ f.nested? = some t ∧
      (Check.Along s (s.fieldsOf t.fullName) a q ∧ Spared (remainders f bound) q.fields) ∧
      p = .cons f q

theorem along_and_spared_iff {fields : List Field} {k : Nat} {a : List Nat} {p : FieldPath}
    (hne : [] ∉ bound) : Check.Along s fields (k :: a) p ∧ Spared bound p.fields ↔
      ∃ f, fields[k]? = some f ∧ SparedFrom s bound f a p := by
  constructor
  · rintro ⟨along, spared⟩
    cases along with
    | single first => exact ⟨_, first, .inl ⟨(spared_single_iff hne).mp spared, rfl, rfl⟩⟩
    | @cons _ _ f t _ q first target rest =>
      obtain ⟨through, past, hrep, hspared⟩ := (spared_cons_iff hne q.ne_nil).mp spared
      exact ⟨f, first, .inr ⟨t, q, through, past, Field.nested?_eq_some_iff.mpr ⟨hrep, target⟩,
        ⟨rest, hspared⟩, rfl⟩⟩
  · rintro ⟨f, first, ⟨free, rfl, rfl⟩ | ⟨t, q, through, past, nested, ⟨rest, hspared⟩, rfl⟩⟩
    · exact ⟨.single first, (spared_single_iff hne).mpr free⟩
    · obtain ⟨hrep, target⟩ := Field.nested?_eq_some_iff.mp nested
      exact ⟨.cons first target rest,
        (spared_cons_iff hne q.ne_nil).mpr ⟨through, past, hrep, hspared⟩⟩

/-- What is left over is what is spared, in the order of the addresses. -/
theorem lists_unboundPaths (s : Schema) (m : String) (hne : [] ∉ bound) :
    Lists (fun a p => Check.Along s (s.fieldsOf m) a p ∧ Spared bound p.fields)
      (unboundPaths s m bound) := by
  induction hn : bound.flatten.length using Nat.strongRecOn generalizing m bound with
  | ind n ih =>
    rw [unboundPaths]
    refine (Lists.flatMap (P := fun _ f => SparedFrom s bound f) fun k f _ => ?_).congr
      fun a p => ?_
    · unfold SparedFrom
      by_cases free : remainders f bound = []
      · simp only [free, ↓reduceDIte]
        exact ((Lists.nil (P := fun _ _ => False) (by simp)).cons (by simp)).congr (by simp)
      by_cases past : [] ∈ remainders f bound
      · simp only [free, past, ↓reduceDIte, ↓reduceIte]
        exact Lists.nil (by simp)
      simp only [free, past, ↓reduceDIte, ↓reduceIte]
      cases nested : f.nested? with
      | none => exact Lists.nil (by simp)
      | some t =>
        have hbelow := ih _ (hn ▸ length_flatten_remainders_lt free) t.fullName past rfl
        exact (hbelow.map (FieldPath.cons f)).congr fun c p => by simp [free]
    · cases a with
      | nil => exact iff_of_false (fun ⟨_, _, _, ha, _⟩ => nomatch ha) fun ⟨h, _⟩ => nomatch h
      | cons k a =>
        rw [along_and_spared_iff hne]
        constructor
        · rintro ⟨_, _, f, ha, first, hp⟩
          cases ha
          exact ⟨f, first, hp⟩
        · exact fun ⟨f, first, hp⟩ => ⟨k, a, f, rfl, first, hp⟩

end Spared

/-! ## Paths left over -/

namespace FieldPath

/-- The path is left over by the bound ones, and no shorter one is: it is none of them and does
not lie on the way to one or beyond one, but every path that leads towards it leads towards a
bound one too, and ends in a field that holds one message. -/
structure LeftOver (bound : List FieldPath) (p : FieldPath) : Prop where
  free : ∀ b ∈ bound, ¬b.covers p ∧ ¬p.covers b
  through : ∀ q : FieldPath, q.isStrictPrefixOf p → ¬q.type.repeated ∧ q.type.isMessage ∧
    ∃ b ∈ bound, q.isStrictPrefixOf b

end FieldPath

section LeftOver

variable {bound : List FieldPath} {a : List Nat} {p q : FieldPath}

theorem Check.Along.chain (h : Check.Along s (s.fieldsOf m) a p) : s.Chain m p.fields := by
  generalize hfields : s.fieldsOf m = fields at h
  induction h generalizing m with
  | single first => exact .last (hfields ▸ List.mem_of_getElem? first)
  | cons first target rest ih =>
    exact .cons (hfields ▸ List.mem_of_getElem? first) target (ih rfl)

theorem leftOver_iff_spared (h : Check.Along s (s.fieldsOf m) a p) :
    p.LeftOver bound ↔ Spared (bound.map (·.fields)) p.fields := by
  constructor
  · intro hp
    refine ⟨fun _ hb => ?_, fun init g rest hsplit hrest => ?_⟩
    · obtain ⟨b, hmem, rfl⟩ := List.mem_map.mp hb
      simpa only [FieldPath.covers_iff] using hp.free b hmem
    · obtain ⟨hrep, -, b, hb, hlt⟩ :=
        hp.through _ (FieldPath.append_isStrictPrefixOf hsplit hrest)
      exact ⟨FieldPath.type_append ▸ hrep, b.fields, List.mem_map_of_mem hb,
        (FieldPath.isStrictPrefixOf_iff.mp hlt).1⟩
  · intro hp
    have hfree : ∀ b ∈ bound, ¬b.covers p ∧ ¬p.covers b := fun b hb => by
      simpa only [FieldPath.covers_iff] using hp.free b.fields (List.mem_map_of_mem hb)
    refine ⟨hfree, fun q hq => ?_⟩
    obtain ⟨rest, hrest, hsplit⟩ := FieldPath.exists_append_of_isStrictPrefixOf hq
    obtain ⟨hrep, _, hmem, hpre⟩ := hp.through _ _ _ hsplit hrest
    obtain ⟨b, hb, rfl⟩ := List.mem_map.mp hmem
    obtain ⟨t, target, -⟩ := Schema.Chain.right_of_append (hsplit ▸ h.chain) hrest
    have hne : q ≠ b := fun e => (hfree b hb).1 (FieldPath.covers_iff_eq_or.mpr (.inr (e ▸ hq)))
    refine ⟨hrep, Option.isSome_iff_exists.mpr ⟨t, target⟩, b, hb, ?_⟩
    exact FieldPath.isStrictPrefixOf_iff.mpr ⟨FieldPath.dropLast_append_last q ▸ hpre, hne⟩

theorem nil_not_mem_map_fields : [] ∉ bound.map (·.fields) := by
  rw [List.mem_map]
  rintro ⟨b, -, hb⟩
  exact b.ne_nil hb

/-- The paths that are left over are found in the order of declaration. -/
theorem lists_unbound (s : Schema) (message : MessageRef) (bound : List FieldPath) :
    Lists (fun a p => Check.Along s (s.fieldsOf message.fullName) a p ∧ p.LeftOver bound)
      (unbound s message bound) :=
  (lists_unboundPaths s message.fullName nil_not_mem_map_fields).congr fun _ _ =>
    and_congr_right fun h => (leftOver_iff_spared h).symm

/-- Of two paths that are left over, neither leads towards the other. -/
theorem FieldPath.LeftOver.eq_of_covers (hp : p.LeftOver bound) (hq : q.LeftOver bound)
    (h : p.covers q) : p = q := by
  obtain rfl | hlt := covers_iff_eq_or.mp h
  · rfl
  · obtain ⟨-, -, b, hb, hpb⟩ := hq.through p hlt
    exact absurd (covers_iff_eq_or.mpr (.inr hpb)) (hp.free b hb).2

/-- In a built schema the address of a path is made of the positions of its fields. -/
theorem Check.Along.address_eq {files : List FileDecl} {targets : Option (List String)}
    (hs : s.Resolves files targets) (h : Check.Along s (s.fieldsOf m) a p) :
    a = p.fields.map (·.position) := by
  generalize hfields : s.fieldsOf m = fields at h
  induction h generalizing m with
  | single first =>
    subst hfields
    rw [FieldPath.single, List.map_singleton, hs.position_eq first]
  | cons first _ _ ih =>
    subst hfields
    rw [FieldPath.cons, List.map_cons, hs.position_eq first, ← ih rfl]

end LeftOver

/-! ## The search for them -/

/-- Searches the message `m`, to which the fields `before` lead, for paths that are left over by
comparing each path as a whole with all that are bound. The search goes below a path if it leads
towards a bound one and holds one message, but takes apart at most `depth` messages inside each
other, and fails with the way to a message that is too deep. -/
def searchUnbound (s : Schema) (bound : List FieldPath) :
    Nat → List Field → String → Except (List Field) (List FieldPath)
  | 0, before, _ => .error before
  | depth + 1, before, m => do
    let found ← (s.fieldsOf m).mapM fun f =>
      let p : FieldPath := ⟨before ++ [f], by simp⟩
      if p ∈ bound then .ok []
      else if bound.any p.isStrictPrefixOf then
        match f.nested? with
        | none => .ok []
        | some t => searchUnbound s bound depth p.fields t.fullName
      else .ok [p]
    return found.flatten

/-- What follows the fields `before` in those of the paths that begin with them. -/
def remaindersAfter (before : List Field) (paths : List (List Field)) : List (List Field) :=
  before.foldl (fun rests f => remainders f rests) paths

theorem mem_remaindersAfter {before rest : List Field} {paths : List (List Field)} :
    rest ∈ remaindersAfter before paths ↔ before ++ rest ∈ paths := by
  induction before generalizing paths with
  | nil => rfl
  | cons f before ih => exact ih.trans mem_remainders

theorem remaindersAfter_concat (before : List Field) (f : Field) (paths : List (List Field)) :
    remaindersAfter (before ++ [f]) paths = remainders f (remaindersAfter before paths) := by
  simp [remaindersAfter]

/-- The path that goes through the fields `before` first. -/
def FieldPath.after (before : List Field) (p : FieldPath) : FieldPath :=
  ⟨before ++ p.fields, by simp [p.ne_nil]⟩

theorem mem_iff_nil_mem_remainders (bound : List FieldPath) (before : List Field) (f : Field) :
    ⟨before ++ [f], by simp⟩ ∈ bound ↔
      [] ∈ remainders f (remaindersAfter before (bound.map (·.fields))) := by
  rw [mem_remainders, mem_remaindersAfter, List.mem_map]
  constructor
  · exact fun h => ⟨_, h, rfl⟩
  · rintro ⟨b, hb, hfields⟩
    obtain rfl : b = ⟨before ++ [f], by simp⟩ := FieldPath.ext hfields
    exact hb

theorem any_isStrictPrefixOf_iff (bound : List FieldPath) (before : List Field) (f : Field) :
    bound.any (FieldPath.isStrictPrefixOf ⟨before ++ [f], by simp⟩) ↔
      ∃ rest ≠ [], rest ∈ remainders f (remaindersAfter before (bound.map (·.fields))) := by
  simp only [List.any_eq_true, mem_remainders, mem_remaindersAfter, List.mem_map]
  constructor
  · rintro ⟨b, hb, hlt⟩
    obtain ⟨⟨rest, hrest⟩, hne⟩ := FieldPath.isStrictPrefixOf_iff.mp hlt
    refine ⟨rest, ?_, b, hb, by simpa using hrest.symm⟩
    rintro rfl
    exact hne (FieldPath.ext (by simpa using hrest))
  · rintro ⟨rest, hne, b, hb, hfields⟩
    exact ⟨b, hb, FieldPath.append_isStrictPrefixOf hfields hne⟩

/-- A search that may go as deep as the bound paths are long finds what is left over. -/
theorem searchUnbound_eq {bound : List FieldPath} {before : List Field} {depth : Nat} (hpos : 0 < depth)
    (hdepth : ∀ rest ∈ remaindersAfter before (bound.map (·.fields)), rest.length ≤ depth) :
    searchUnbound s bound depth before m =
      .ok ((unboundPaths s m (remaindersAfter before (bound.map (·.fields)))).map (.after before)) := by
  induction depth generalizing before m with
  | zero => exact absurd hpos (Nat.lt_irrefl 0)
  | succ depth ih =>
    rw [searchUnbound, unboundPaths, List.map_flatMap]
    refine flatten_mapM_eq_ok fun f _ => ?_
    -- What the paths at `f` have to do with bound ones shows in the remainders.
    have hbound := mem_iff_nil_mem_remainders bound before f
    have hleads := any_isStrictPrefixOf_iff bound before f
    rw [← remaindersAfter_concat] at hbound hleads ⊢
    by_cases free : remaindersAfter (before ++ [f]) (bound.map (·.fields)) = []
    · have hnone : ¬bound.any (FieldPath.isStrictPrefixOf ⟨before ++ [f], by simp⟩) := by
        rw [hleads, free]
        simp
      simp only [hbound, hnone, free]
      rfl
    by_cases past : [] ∈ remaindersAfter (before ++ [f]) (bound.map (·.fields))
    · simp [hbound, free, past]
    have hsome : bound.any (FieldPath.isStrictPrefixOf ⟨before ++ [f], by simp⟩) := by
      obtain ⟨rest, hrest⟩ := List.exists_mem_of_ne_nil _ free
      exact hleads.mpr ⟨rest, fun e => past (e ▸ hrest), hrest⟩
    simp only [hbound, hsome, free, past, ↓reduceIte, ↓reduceDIte]
    cases f.nested? with
    | none => rfl
    | some t =>
      have hless : ∀ rest ∈ remaindersAfter (before ++ [f]) (bound.map (·.fields)),
          rest.length ≤ depth := fun rest hrest => by
        rw [remaindersAfter_concat, mem_remainders] at hrest
        exact Nat.le_of_succ_le_succ (hdepth _ hrest)
      have hmore : 0 < depth := by
        obtain ⟨rest, hrest⟩ := List.exists_mem_of_ne_nil _ free
        have hne : rest ≠ [] := fun e => past (e ▸ hrest)
        exact Nat.lt_of_lt_of_le (List.length_pos_iff.mpr hne) (hless rest hrest)
      have hafter : FieldPath.after (before ++ [f]) = FieldPath.after before ∘ .cons f :=
        funext fun p => FieldPath.ext (by simp [FieldPath.after, FieldPath.cons])
      dsimp only
      rw [ih hmore hless, hafter, List.map_map]

/-! ## All about what is left over -/

/-- A path through single messages that does not meet a bound path, and does not lead towards
one, begins with a path left over. -/
theorem exists_mem_unbound {message : MessageRef} {bound : List FieldPath} {d : FieldPath}
    (hd : s.Chain message.fullName d.fields) (hsingle : ∀ f ∈ d.fields.dropLast, ¬f.type.repeated)
    (hfree : ∀ b ∈ bound, ¬b.covers d ∧ ¬d.isStrictPrefixOf b) :
    ∃ p ∈ unbound s message bound, p.covers d := by
  obtain ⟨_, hmem, hpre⟩ | ⟨_, hmem, hpre⟩ | ⟨p, hp, hpre⟩ | ⟨init, g, rest, _, hsplit, hne, hrep, -⟩ :=
    hd.bound_or_unbound (bound.map (·.fields))
  · obtain ⟨b, hb, rfl⟩ := List.mem_map.mp hmem
    exact absurd (FieldPath.covers_iff.mpr hpre) (hfree b hb).1
  · obtain ⟨b, hb, rfl⟩ := List.mem_map.mp hmem
    have hne : d ≠ b := fun e => (hfree b hb).1 (FieldPath.covers_iff_eq_or.mpr (.inl e.symm))
    exact absurd (FieldPath.isStrictPrefixOf_iff.mpr ⟨hpre, hne⟩) (hfree b hb).2
  · exact ⟨p, hp, FieldPath.covers_iff.mpr hpre⟩
  · have hmem : g ∈ d.fields.dropLast := by
      rw [hsplit, FieldPath.dropLast_append_cons hne]
      exact List.mem_append_right _ List.mem_cons_self
    exact absurd hrep (hsingle g hmem)

/-- What the bound paths leave over of a message of a built schema, however its messages refer to
each other. A search that takes apart at most as many messages inside each other as the longest
bound path has fields comes to an end and finds it. It is the paths from the message that do not
meet a bound path while every shorter way into them leads towards one and through single messages
only, in the order of declaration, and none of them leads towards another. Every path through
single messages that does not meet a bound path, and does not lead towards one either, is or
lies beyond exactly one of them. -/
theorem unbound_exact {files : List FileDecl} {targets : Option (List String)}
    (hs : Schema.build files targets = .ok s) (message : MessageRef) (bound : List FieldPath) :
    (∀ depth, 0 < depth → (∀ b ∈ bound, b.fields.length ≤ depth) →
      searchUnbound s bound depth [] message.fullName = .ok (unbound s message bound)) ∧
    Lists (fun a p => Check.Along s (s.fieldsOf message.fullName) a p ∧ p.LeftOver bound)
      (unbound s message bound) ∧
    (unbound s message bound).Pairwise (fun p q => ¬p.covers q ∧ ¬q.covers p) ∧
    ∀ d : FieldPath, s.Chain message.fullName d.fields →
      (∀ f ∈ d.fields.dropLast, ¬f.type.repeated) →
      (∀ b ∈ bound, ¬b.covers d ∧ ¬d.isStrictPrefixOf b) →
      ∃! p, p ∈ unbound s message bound ∧ p.covers d := by
  have hresolves := Schema.resolves_of_build hs
  have hlists := lists_unbound s message bound
  have hleft : ∀ p ∈ unbound s message bound, p.LeftOver bound := fun p hp => by
    obtain ⟨_, -, h⟩ := hlists.mem_iff.mp hp
    exact h
  refine ⟨fun depth hpos hdepth => ?_, hlists, ?_, fun d hd hsingle hfree => ?_⟩
  · have hrests : ∀ rest ∈ remaindersAfter [] (bound.map (·.fields)), rest.length ≤ depth := by
      simpa [remaindersAfter] using hdepth
    have hafter : FieldPath.after [] = id := funext fun p => rfl
    rw [searchUnbound_eq hpos hrests, hafter, List.map_id]
    rfl
  · have hnodup : (unbound s message bound).Nodup := by
      rw [← List.map_id (unbound s message bound), hlists.nodup_map_iff]
      rintro a b p q ⟨ha, -⟩ ⟨hb, -⟩ rfl
      exact (ha.address_eq hresolves).trans (hb.address_eq hresolves).symm
    refine hnodup.pairwise_of_forall_ne fun p hp q hq hne => ⟨fun h => hne ?_, fun h => hne ?_⟩
    · exact (hleft p hp).eq_of_covers (hleft q hq) h
    · exact ((hleft q hq).eq_of_covers (hleft p hp) h).symm
  · obtain ⟨p, hp, hpd⟩ := exists_mem_unbound hd hsingle hfree
    refine ⟨p, ⟨hp, hpd⟩, fun q ⟨hq, hqd⟩ => ?_⟩
    -- Of two paths to `d` one leads to the other.
    obtain hpq | hqp := List.prefix_or_prefix_of_prefix (FieldPath.covers_iff.mp hpd)
      (FieldPath.covers_iff.mp hqd)
    · exact ((hleft p hp).eq_of_covers (hleft q hq) (FieldPath.covers_iff.mpr hpq)).symm
    · exact (hleft q hq).eq_of_covers (hleft p hp) (FieldPath.covers_iff.mpr hqp)

/-! ## A tree of nodes -/

def nodeId : Field := ⟨"v1.Node", 0, "id", 1, ⟨.string, false, none⟩⟩

def nodeParent : Field := ⟨"v1.Node", 1, "parent", 2, ⟨.message, false, some ⟨"v1.Node", false⟩⟩⟩

def nodeChildren : Field :=
  ⟨"v1.Node", 2, "children", 3, ⟨.message, true, some ⟨"v1.Node", false⟩⟩⟩

/-- Nodes, which refer to nodes in turn. -/
def nodeFile : FileDecl where
  name := "nodes.proto"
  package := "v1"
  messages := [⟨"Node", false, [⟨"id", 1, .string, false, ""⟩,
    ⟨"parent", 2, .message, false, ".v1.Node"⟩, ⟨"children", 3, .message, true, ".v1.Node"⟩], []⟩]
  services := []
  spans := []

def nodeSchema : Schema where
  messages := [⟨"v1.Node", "nodes.proto", false, [nodeId, nodeParent, nodeChildren]⟩]
  methods := []
  targets := ["nodes.proto"]

/-- The identifiers of a node and of its parent's parent. -/
def nodeBound : List FieldPath :=
  [.single nodeId, .cons nodeParent (.cons nodeParent (.single nodeId))]

def nodeLeftOver : List FieldPath :=
  [.cons nodeParent (.single nodeId), .cons nodeParent (.cons nodeParent (.single nodeParent)),
    .cons nodeParent (.cons nodeParent (.single nodeChildren)),
    .cons nodeParent (.single nodeChildren), .single nodeChildren]

/-- The identifier of a node's ancestor three levels up. -/
def ancestorId : FieldPath :=
  .cons nodeParent (.cons nodeParent (.cons nodeParent (.single nodeId)))

theorem build_nodeFile : Schema.build [nodeFile] none = .ok nodeSchema :=
  rfl

theorem chain_ancestorId : nodeSchema.Chain "v1.Node" ancestorId.fields := by
  have hparent : nodeParent ∈ nodeSchema.fieldsOf "v1.Node" := by decide
  exact .cons (t := ⟨"v1.Node", false⟩) hparent rfl (.cons (t := ⟨"v1.Node", false⟩) hparent rfl
    (.cons (t := ⟨"v1.Node", false⟩) hparent rfl (.last (by decide))))

/-- What identifiers leave over of a node that refers to nodes: three levels are searched, and
ancestors further up are left over with the third. -/
theorem unbound_nodeBound :
    Schema.build [nodeFile] none = .ok nodeSchema ∧
      unbound nodeSchema ⟨"v1.Node", false⟩ nodeBound = nodeLeftOver ∧
      nodeSchema.Chain "v1.Node" ancestorId.fields ∧
      (∀ b ∈ nodeBound, ¬b.covers ancestorId ∧ ¬ancestorId.isStrictPrefixOf b) ∧
      ∃! p, p ∈ nodeLeftOver ∧ p.covers ancestorId := by
  have hfree : ∀ b ∈ nodeBound, ¬b.covers ancestorId ∧ ¬ancestorId.isStrictPrefixOf b := by decide
  obtain ⟨hsearch, -, -, hcovered⟩ := unbound_exact build_nodeFile ⟨"v1.Node", false⟩ nodeBound
  have hfound : searchUnbound nodeSchema nodeBound 3 [] "v1.Node" = .ok nodeLeftOver := rfl
  have hleft : unbound nodeSchema ⟨"v1.Node", false⟩ nodeBound = nodeLeftOver :=
    Except.ok.inj ((hsearch 3 (by decide) (by decide)).symm.trans hfound)
  refine ⟨build_nodeFile, hleft, chain_ancestorId, hfree, ?_⟩
  rw [← hleft]
  exact hcovered ancestorId chain_ancestorId (by decide) hfree

end HttpTranscoding
