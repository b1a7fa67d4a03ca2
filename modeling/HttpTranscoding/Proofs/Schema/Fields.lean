import HttpTranscoding.Proofs.Schema.Resolution

/-!
# The fields of a built schema

What a built schema promises of the fields of a message, whatever the files declare, be it
messages that refer to each other in a circle or several of one full name.

* `Resolves.exists_message_of_target`: a field refers to messages of the schema;
* `Resolves.position_eq`: a field knows its place among the fields of its message.
-/

namespace HttpTranscoding.Schema

variable {s : Schema} {files : List FileDecl} {targets : Option (List String)}

theorem mem_messages_of_message? {name : String} {m : Message} (h : s.message? name = some m) :
    m ∈ s.messages ∧ m.fullName = name := by
  unfold message? at h
  rw [List.findRev?_eq_find?_reverse] at h
  exact ⟨List.mem_reverse.mp (List.mem_of_find?_eq_some h), by simpa using List.find?_some h⟩

/-- A message of the schema is what became of a declared one. -/
theorem Resolves.exists_resolved (h : s.Resolves files targets) {m : Message}
    (hm : m ∈ s.messages) : ∃ x : Declared, x.Resolved s m := by
  obtain ⟨_, x, -, hx⟩ := h.messages.mem_iff.mp hm
  exact ⟨x, hx⟩

/-- A field that holds messages holds those of the schema. -/
theorem Resolves.exists_message_of_target (h : s.Resolves files targets) {m : Message} {f : Field}
    {t : MessageRef} (hm : m ∈ s.messages) (hf : f ∈ m.fields) (ht : f.type.target = some t) :
    ∃ m' ∈ s.messages, m'.fullName = t.fullName := by
  obtain ⟨x, hx⟩ := h.exists_resolved hm
  obtain ⟨d, -, hd⟩ := exists_mem_left hx.fields hf
  obtain ⟨m', hfind, rfl⟩ := hd.target t ht
  exact ⟨m', (mem_messages_of_message? hfind).1, rfl⟩

/-- The position of a field is its index in the message that a full name stands for. -/
theorem Resolves.position_eq (h : s.Resolves files targets) {name : String} {k : Nat} {f : Field}
    (hf : (s.fieldsOf name)[k]? = some f) : f.position = k := by
  unfold fieldsOf at hf
  cases hm : s.message? name with
  | none => simp [hm] at hf
  | some m =>
    obtain ⟨x, hx⟩ := h.exists_resolved (mem_messages_of_message? hm).1
    replace hf : m.fields[k]? = some f := by simpa [hm] using hf
    obtain ⟨hlt, rfl⟩ := List.getElem?_eq_some_iff.mp hf
    have hdeclared : k < x.fields.zipIdx.length := hx.fields.length_eq ▸ hlt
    have hposition : m.fields[k].position = (x.fields.zipIdx[k]).2 :=
      ((List.forall₂_iff_get.mp hx.fields).2 k hdeclared hlt).position
    simpa using hposition

end HttpTranscoding.Schema
