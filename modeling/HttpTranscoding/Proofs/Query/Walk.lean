import HttpTranscoding.Check.Query
import Mathlib.Data.List.Basic

/-!
# The walk below query parameters

`Check.parameterField` hands the set of the messages that are being taken apart
from one field to the next and counts down a depth. Neither shows in what it
finds:

* `parameterFields_eq`: a walk leaves the set as it was, so a list of fields is
  walked field by field, each from the same set;
* `walk_of_stopped`, `walk_of_opened`: what is wrong with a field and everything
  below it, with no depth in it, since the depth that a walk starts with outlasts
  the messages that are left to take apart (`parameterField_stable`);
* `walk_induction`: what holds of all walks holds where they stop and carries over from
  below a field to the field;
* `mem_walk_iff`: a walk finds what is wrong with the fields that it comes to
  (`Descent`), each judged by the messages that are open there.
-/

namespace HttpTranscoding

/-- Whether `f` holds messages of type `t` that are no parameter values: neither map entries
nor of a type that renders as a value. -/
def Field.Plain (f : Field) (t : MessageRef) : Prop :=
  f.type.target = some t ∧ ¬f.type.isMap ∧ ¬t.wellKnown.rendersAsParameter

/-- Whether a walk goes below `f`, into the fields of `t`. -/
def Field.Expandable (allowed : NameSet) (f : Field) (t : MessageRef) : Prop :=
  f.Plain t ∧ ¬(f.type.repeated ∧ f.fullName ∈ allowed)

theorem Field.parameterShape_eq_message_iff {f : Field} {t : MessageRef} :
    f.parameterShape = .message t ↔ f.Plain t := by
  unfold Field.parameterShape Field.Plain
  grind

theorem Field.parameterShape_eq_map_iff {f : Field} : f.parameterShape = .map ↔ f.type.isMap := by
  unfold Field.parameterShape
  grind

namespace Check

variable {s : Schema} {allowed : NameSet}

/-- What is wrong with `f` by itself while the messages named in `expanding` are open. -/
def faults (allowed expanding : NameSet) (f : Field) : List Violation :=
  match f.parameterShape with
  | .map => [.mapParameter f]
  | .value => []
  | .message target =>
    if target.fullName ∈ expanding then [.cyclicParameter f]
    else if f.type.repeated && f.fullName ∉ allowed then [.repeatedParameter f]
    else []

theorem mapParameter_mem_faults_iff {V : NameSet} {f g : Field} :
    .mapParameter g ∈ faults allowed V f ↔ g = f ∧ f.type.isMap := by
  rw [← Field.parameterShape_eq_map_iff]
  unfold faults
  grind

theorem cyclicParameter_mem_faults_iff {V : NameSet} {f g : Field} :
    .cyclicParameter g ∈ faults allowed V f ↔ g = f ∧ ∃ t, f.Plain t ∧ t.fullName ∈ V := by
  simp only [← Field.parameterShape_eq_message_iff]
  unfold faults
  grind

theorem repeatedParameter_mem_faults_iff {V : NameSet} {f g : Field} :
    .repeatedParameter g ∈ faults allowed V f ↔
      g = f ∧ f.type.repeated ∧ f.fullName ∉ allowed ∧ ∃ t, f.Plain t ∧ t.fullName ∉ V := by
  simp only [← Field.parameterShape_eq_message_iff]
  unfold faults
  grind

/-- A walk stops at `f`, or it goes below `f` into a message that is not open. -/
theorem stopped_or_opened (allowed V : NameSet) (f : Field) :
    (∀ t, f.Expandable allowed t → t.fullName ∈ V) ∨
      ∃ t, f.Expandable allowed t ∧ t.fullName ∉ V := by
  by_cases h : ∀ t, f.Expandable allowed t → t.fullName ∈ V
  · exact .inl h
  · exact .inr (by simpa using h)

/-! ## The set of open messages -/

theorem collect_eq {α β σ : Type} {visit : α → σ → List β × σ} {state : σ} {items : List α}
    (h : ∀ item ∈ items, (visit item state).2 = state) :
    collect visit items state = (items.flatMap fun item => (visit item state).1, state) := by
  induction items with
  | nil => rfl
  | cons item rest ih =>
    have hitem : (visit item state).2 = state := h item List.mem_cons_self
    have hrest := ih fun i hi => h i (List.mem_cons_of_mem _ hi)
    simp only [collect, hitem, hrest, List.flatMap_cons]

/-- A field that the walk does not go below. -/
theorem parameterField_of_stopped {f : Field} {V : NameSet} (depth : Nat)
    (h : ∀ t, f.Expandable allowed t → t.fullName ∈ V) :
    parameterField s allowed depth f V = (faults allowed V f, V) := by
  unfold parameterField faults
  cases hs : f.parameterShape with
  | map => rfl
  | value => rfl
  | message t =>
    by_cases hV : t.fullName ∈ V
    · simp [hV]
    · have hallowed : f.type.repeated ∧ f.fullName ∈ allowed :=
        Classical.not_not.mp fun hn => hV (h t ⟨Field.parameterShape_eq_message_iff.mp hs, hn⟩)
      simp [hV, hallowed]

/-- Without any depth left, a field is judged by itself. -/
theorem parameterField_zero {f : Field} {V : NameSet} :
    parameterField s allowed 0 f V = (faults allowed V f, V) := by
  unfold parameterField faults
  grind

theorem parameterField_succ {f : Field} {V : NameSet} {t : MessageRef} (depth : Nat)
    (hf : f.Expandable allowed t) (ht : t.fullName ∉ V) :
    parameterField s allowed (depth + 1) f V =
      (faults allowed V f ++ (collect (parameterField s allowed depth) (s.fieldsOf t.fullName)
          (V.insert t.fullName)).1,
        (collect (parameterField s allowed depth) (s.fieldsOf t.fullName)
          (V.insert t.fullName)).2.erase t.fullName) := by
  obtain ⟨hplain, hn⟩ := hf
  unfold faults
  rw [parameterField, Field.parameterShape_eq_message_iff.mpr hplain]
  grind

/-- A walk leaves the set of open messages as it was. -/
theorem parameterField_snd (depth : Nat) (f : Field) (V : NameSet) :
    (parameterField s allowed depth f V).2 = V := by
  induction depth generalizing f V with
  | zero => rw [parameterField_zero]
  | succ depth ih =>
    obtain hstop | ⟨t, hf, ht⟩ := stopped_or_opened allowed V f
    · rw [parameterField_of_stopped _ hstop]
    · rw [parameterField_succ depth hf ht, collect_eq fun g _ => ih g _]
      exact NameSet.erase_insert ht

theorem parameterField_succ_fst {f : Field} {V : NameSet} {t : MessageRef} (depth : Nat)
    (hf : f.Expandable allowed t) (ht : t.fullName ∉ V) :
    (parameterField s allowed (depth + 1) f V).1 =
      faults allowed V f ++ (s.fieldsOf t.fullName).flatMap fun g =>
        (parameterField s allowed depth g (V.insert t.fullName)).1 := by
  rw [parameterField_succ depth hf ht, collect_eq fun g _ => parameterField_snd _ g _]

/-! ## The depth -/

/-- How many messages of a schema are not open. -/
def fresh (s : Schema) (V : NameSet) : Nat :=
  s.messages.countP (·.fullName ∉ V)

/-- Opening a message that has fields leaves fewer messages. -/
theorem fresh_insert_lt {V : NameSet} {name : String} {g : Field} (hV : name ∉ V)
    (hg : g ∈ s.fieldsOf name) : fresh s (V.insert name) < fresh s V := by
  obtain ⟨m, hm, rfl, -⟩ := Schema.exists_message_of_mem_fieldsOf hg
  obtain ⟨before, after, hsplit⟩ := List.append_of_mem hm
  have hmono (l : List Message) :
      l.countP (·.fullName ∉ V.insert m.fullName) ≤ l.countP (·.fullName ∉ V) :=
    List.countP_mono_left fun x _ hx => by
      simp only [decide_eq_true_eq, NameSet.mem_insert, not_or] at hx ⊢
      exact hx.2
  have hbefore := hmono before
  have hafter := hmono after
  simp only [fresh, hsplit, List.countP_append, List.countP_cons, NameSet.mem_insert_self,
    not_true_eq_false, decide_false, hV, not_false_eq_true, decide_true, ite_true]
  simp only [Bool.false_eq_true, ite_false]
  omega

theorem fresh_le (s : Schema) (V : NameSet) : fresh s V ≤ s.messages.length :=
  List.countP_le_length

/-- A depth that outlasts the messages left to open finds all there is to find. -/
theorem parameterField_stable {f : Field} {V : NameSet} {depth : Nat} (h : fresh s V ≤ depth) :
    (parameterField s allowed depth f V).1 = (parameterField s allowed (depth + 1) f V).1 := by
  induction depth generalizing f V with
  | zero =>
    obtain hstop | ⟨t, hf, ht⟩ := stopped_or_opened allowed V f
    · rw [parameterField_of_stopped _ hstop, parameterField_of_stopped _ hstop]
    · have hnone : s.fieldsOf t.fullName = [] := List.eq_nil_iff_forall_not_mem.mpr fun g hg =>
        absurd (fresh_insert_lt ht hg) (by omega)
      rw [parameterField_zero, parameterField_succ_fst _ hf ht, hnone, List.flatMap_nil,
        List.append_nil]
  | succ depth ih =>
    obtain hstop | ⟨t, hf, ht⟩ := stopped_or_opened allowed V f
    · rw [parameterField_of_stopped _ hstop, parameterField_of_stopped _ hstop]
    · rw [parameterField_succ_fst _ hf ht, parameterField_succ_fst _ hf ht]
      congr 1
      refine List.flatMap_congr fun g hg => ih ?_
      have hlt := fresh_insert_lt ht hg
      omega

/-! ## What a walk finds -/

/-- What is wrong with `f` and everything below it while the messages named in `V` are open. -/
def walk (s : Schema) (allowed : NameSet) (f : Field) (V : NameSet) : List Violation :=
  (parameterField s allowed s.messages.length f V).1

theorem walk_of_stopped {f : Field} {V : NameSet}
    (h : ∀ t, f.Expandable allowed t → t.fullName ∈ V) :
    walk s allowed f V = faults allowed V f := by
  rw [walk, parameterField_of_stopped _ h]

theorem walk_of_opened {f : Field} {V : NameSet} {t : MessageRef}
    (hf : f.Expandable allowed t) (ht : t.fullName ∉ V) :
    walk s allowed f V =
      faults allowed V f ++
        (s.fieldsOf t.fullName).flatMap fun g => walk s allowed g (V.insert t.fullName) := by
  unfold walk
  rw [parameterField_stable (fresh_le s V), parameterField_succ_fst _ hf ht]

/-- What holds of every field at which a walk stops, and of a field that it goes below if it
holds of the fields there, holds of every field, whatever messages are open. -/
theorem walk_induction (s : Schema) (allowed : NameSet) {motive : NameSet → Field → Prop}
    (stopped : ∀ V f, (∀ t, f.Expandable allowed t → t.fullName ∈ V) → motive V f)
    (opened : ∀ V f t, f.Expandable allowed t → t.fullName ∉ V →
      (∀ g ∈ s.fieldsOf t.fullName, motive (V.insert t.fullName) g) → motive V f)
    (V : NameSet) (f : Field) : motive V f := by
  induction hn : fresh s V using Nat.strongRecOn generalizing V f with
  | ind n ih =>
    obtain hstop | ⟨t, hf, ht⟩ := stopped_or_opened allowed V f
    · exact stopped V f hstop
    · exact opened V f t hf ht fun g hg => ih _ (hn ▸ fresh_insert_lt ht hg) _ g rfl

theorem parameterFields_eq (fields : List Field) (V : NameSet) :
    parameterFields s allowed fields V = (fields.flatMap fun f => walk s allowed f V, V) :=
  collect_eq fun f _ => parameterField_snd _ f V

/-- `Descent s allowed V f W g`: a walk that enters `f` while the messages of `V` are open
comes to `g` while those of `W` are. -/
inductive Descent (s : Schema) (allowed : NameSet) :
    NameSet → Field → NameSet → Field → Prop
  | here {V : NameSet} {f : Field} : Descent s allowed V f V f
  | down {V W : NameSet} {f g h : Field} {t : MessageRef}
      (opens : f.Expandable allowed t) (fresh : t.fullName ∉ V)
      (field : g ∈ s.fieldsOf t.fullName)
      (rest : Descent s allowed (V.insert t.fullName) g W h) : Descent s allowed V f W h

theorem mem_walk_of_descent {V W : NameSet} {f g : Field} {v : Violation}
    (h : Descent s allowed V f W g) (hv : v ∈ faults allowed W g) : v ∈ walk s allowed f V := by
  induction h with
  | @here V f =>
    obtain hstop | ⟨t, hf, ht⟩ := stopped_or_opened allowed V f
    · rwa [walk_of_stopped hstop]
    · rw [walk_of_opened hf ht]
      exact List.mem_append_left _ hv
  | down opens fresh field _ ih =>
    rw [walk_of_opened opens fresh]
    exact List.mem_append_right _ (List.mem_flatMap.mpr ⟨_, field, ih hv⟩)

theorem exists_descent_of_mem_walk {V : NameSet} {f : Field} {v : Violation}
    (h : v ∈ walk s allowed f V) :
    ∃ W g, Descent s allowed V f W g ∧ v ∈ faults allowed W g := by
  induction V, f using walk_induction s allowed with
  | stopped V f hstop =>
    rw [walk_of_stopped hstop] at h
    exact ⟨V, f, .here, h⟩
  | opened V f t hf ht ih =>
    rw [walk_of_opened hf ht, List.mem_append, List.mem_flatMap] at h
    obtain h | ⟨g, hg, h⟩ := h
    · exact ⟨V, f, .here, h⟩
    · obtain ⟨W, g', hd, hv⟩ := ih g hg h
      exact ⟨W, g', .down hf ht hg hd, hv⟩

/-- A walk finds what is wrong with the fields that it comes to, and nothing else. -/
theorem mem_walk_iff {V : NameSet} {f : Field} {v : Violation} :
    v ∈ walk s allowed f V ↔ ∃ W g, Descent s allowed V f W g ∧ v ∈ faults allowed W g :=
  ⟨exists_descent_of_mem_walk, fun ⟨_, _, hd, hv⟩ => mem_walk_of_descent hd hv⟩

end Check

end HttpTranscoding
