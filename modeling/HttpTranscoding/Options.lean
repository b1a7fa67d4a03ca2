import HttpTranscoding.Text.Blank
import Std.Data.ExtTreeSet
/-!
# Options

The repeated message fields that query parameters may reach without an error.
The names come from three sources: built in, from an environment variable that
lists them between commas, and from the command line. Each source adds to the
ones before it, so the options are the union of the three (`Options.allow`).
-/

namespace HttpTranscoding

/-- A set of names; two sets with the same members are equal. -/
abbrev NameSet := Std.ExtTreeSet String

namespace NameSet

def ofNames (names : List String) : NameSet :=
  names.foldl (·.insert ·) ∅

theorem mem_insert {names : NameSet} {n m : String} :
    m ∈ names.insert n ↔ m = n ∨ m ∈ names := by
  rw [Std.ExtTreeSet.mem_insert, Std.compare_eq_iff_eq, eq_comm]

theorem mem_insert_self (names : NameSet) (n : String) : n ∈ names.insert n :=
  mem_insert.mpr (.inl rfl)

/-- Taking out a name that was put in and not there before. -/
theorem erase_insert {names : NameSet} {n : String} (h : n ∉ names) :
    (names.insert n).erase n = names := by
  refine Std.ExtTreeSet.ext_mem fun m => ?_
  rw [Std.ExtTreeSet.mem_erase, mem_insert, ne_eq, Std.compare_eq_iff_eq]
  constructor
  · rintro ⟨hne, rfl | hm⟩
    · exact absurd rfl hne
    · exact hm
  · intro hm
    exact ⟨fun e => h (e ▸ hm), .inr hm⟩

end NameSet

structure Options where
  /-- Full names of the repeated message fields that are allowed. -/
  allowed : NameSet

namespace Options

/-- The names that are always allowed: a map field that gateways handle themselves
and never map to a query parameter. -/
def builtIn : List String :=
  ["google.api.HttpBody.extensions"]

def default : Options :=
  ⟨NameSet.ofNames builtIn⟩

/-- The options that allow the fields of the given names as well. -/
def allow (o : Options) (names : List String) : Options :=
  ⟨names.foldl (·.insert ·) o.allowed⟩

/-- The environment variable that lists further names. -/
def variableName : String :=
  "PBHTTP_ALLOWED_REPEATED_FIELDS"

/-- The names between the commas of a text, without the blanks around them; pieces of
nothing but blanks are no names. -/
def listed (text : String) : List String :=
  ((text.toList.splitOn ',').map fun piece => String.ofList (Text.strip piece)).filter (· ≠ "")

/-- The default options together with what the environment adds. -/
def ofEnvironment (lookup : String → Option String) : Options :=
  default.allow (listed ((lookup variableName).getD ""))

end Options

end HttpTranscoding
