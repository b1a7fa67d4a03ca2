/-!
# Wire format

A compiled file is stored in the wire format of protocol buffers. A message is a
sequence of entries, each a field number and a value (`Wire.entries?`). The value is
a number or some bytes; what these mean is up to the field.

A field may have several entries. If it holds one number or text, the last entry
counts; if it holds one message, that is what the bytes of all entries make
together; if it is repeated, every entry counts.
-/

namespace HttpTranscoding.Wire

inductive Value
  | number (n : Nat)
  | bytes (content : List UInt8)
  /-- A value of four or eight bytes, of which declarations make no use. -/
  | fixed

structure Entry where
  field : Nat
  value : Value

/-- The number that begins `bytes`, and what follows it. A byte holds seven bits, the
lowest come first, and every byte but the last has its highest bit set. -/
def number? : List UInt8 → Option (Nat × List UInt8)
  | [] => none
  | b :: rest =>
    if b < 128 then some (b.toNat, rest)
    else (number? rest).map fun (n, after) => (b.toNat - 128 + 128 * n, after)

/-- The first `size` bytes, and what follows them. -/
def split? (size : Nat) (bytes : List UInt8) : Option (List UInt8 × List UInt8) :=
  if size ≤ bytes.length then some (bytes.splitAt size) else none

/-- The value that begins `bytes`, and what follows it; `form` is the form that it is
written in. -/
def value? (form : Nat) (bytes : List UInt8) : Option (Value × List UInt8) :=
  match form with
  | 0 => (number? bytes).map fun (n, rest) => (.number n, rest)
  | 1 => (split? 8 bytes).map fun (_, rest) => (.fixed, rest)
  | 2 => do
    let (size, rest) ← number? bytes
    let (content, rest) ← split? size rest
    return (.bytes content, rest)
  | 5 => (split? 4 bytes).map fun (_, rest) => (.fixed, rest)
  | _ => none

/-- The entry that begins `bytes`, and what follows it. The number that begins an entry
has the field in front and the form in its last three bits. -/
def entry? (bytes : List UInt8) : Option (Entry × List UInt8) := do
  let (key, rest) ← number? bytes
  let (value, rest) ← value? (key % 8) rest
  return (⟨key / 8, value⟩, rest)

theorem length_lt_of_number? {bytes rest : List UInt8} {n : Nat}
    (h : number? bytes = some (n, rest)) : rest.length < bytes.length := by
  induction bytes generalizing n with
  | nil => simp [number?] at h
  | cons b bytes ih =>
    rw [number?] at h
    split at h
    · grind
    · obtain ⟨⟨n, rest⟩, hn, heq⟩ := Option.map_eq_some_iff.mp h
      grind

theorem length_le_of_split? {bytes content rest : List UInt8} {size : Nat}
    (h : split? size bytes = some (content, rest)) : rest.length ≤ bytes.length := by
  grind [split?]

theorem length_le_of_value? {form : Nat} {bytes rest : List UInt8} {value : Value}
    (h : value? form bytes = some (value, rest)) : rest.length ≤ bytes.length := by
  unfold value? at h
  split at h
  · obtain ⟨⟨n, after⟩, hn, heq⟩ := Option.map_eq_some_iff.mp h
    have := length_lt_of_number? hn
    grind
  · obtain ⟨⟨_, after⟩, hs, heq⟩ := Option.map_eq_some_iff.mp h
    have := length_le_of_split? hs
    grind
  · obtain ⟨⟨size, after⟩, hn, h⟩ := Option.bind_eq_some_iff.mp h
    obtain ⟨⟨content, last⟩, hs, heq⟩ := Option.bind_eq_some_iff.mp h
    have := length_lt_of_number? hn
    have := length_le_of_split? hs
    grind
  · obtain ⟨⟨_, after⟩, hs, heq⟩ := Option.map_eq_some_iff.mp h
    have := length_le_of_split? hs
    grind
  · simp at h

theorem length_lt_of_entry? {bytes rest : List UInt8} {e : Entry}
    (h : entry? bytes = some (e, rest)) : rest.length < bytes.length := by
  obtain ⟨⟨key, between⟩, hn, h⟩ := Option.bind_eq_some_iff.mp h
  obtain ⟨⟨value, after⟩, hv, heq⟩ := Option.bind_eq_some_iff.mp h
  have := length_lt_of_number? hn
  have := length_le_of_value? hv
  grind

/-- The entries that `bytes` consist of. -/
def entries? (bytes : List UInt8) : Option (List Entry) :=
  if bytes = [] then some []
  else
    match _ : entry? bytes with
    | none => none
    | some (e, rest) => (entries? rest).map (e :: ·)
termination_by bytes.length
decreasing_by exact length_lt_of_entry? ‹_›

/-! ## Fields -/

/-- The values of a field. -/
def values (entries : List Entry) (field : Nat) : List Value :=
  (entries.filter (·.field = field)).map (·.value)

/-- The bytes that each entry of a field holds. -/
def contents (entries : List Entry) (field : Nat) : List (List UInt8) :=
  (values entries field).filterMap fun
    | .bytes content => some content
    | _ => none

/-- The integer of 32 bits that a number stands for. -/
def int32 (n : Nat) : Int :=
  Int.bmod n 0x100000000

/-- The integer that a field holds, or else `absent`. -/
def int (entries : List Entry) (field : Nat) (absent : Int) : Int :=
  let numbers := (values entries field).filterMap fun
    | .number n => some n
    | _ => none
  (numbers.getLast?.map int32).getD absent

/-- The numbers that `bytes` consist of. -/
def numbers? (bytes : List UInt8) : Option (List Nat) :=
  if bytes = [] then some []
  else
    match _ : number? bytes with
    | none => none
    | some (n, rest) => (numbers? rest).map (n :: ·)
termination_by bytes.length
decreasing_by exact length_lt_of_number? ‹_›

/-- The integers that a repeated field holds, one or several to an entry. -/
def ints? (entries : List Entry) (field : Nat) : Option (List Int) := do
  let runs ← (values entries field).mapM fun
    | .number n => some [n]
    | .bytes content => numbers? content
    | .fixed => some []
  return runs.flatten.map int32

/-- The text that a field holds, empty if it has no entry. -/
def text? (entries : List Entry) (field : Nat) : Option String :=
  String.fromUTF8? ⟨((contents entries field).getLastD []).toArray⟩

end HttpTranscoding.Wire
