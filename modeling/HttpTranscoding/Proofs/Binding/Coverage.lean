import HttpTranscoding.Proofs.Binding.Resolution
import HttpTranscoding.Proofs.Binding.Unbound
import HttpTranscoding.Schema.Build

/-!
# Where the fields of a request go

A field of the request, however deep, is sent if it belongs to a path that the rule
binds, if a bound path leads through it, or if it belongs to a path left over to the
query or the body (`Binding.Sends`). Not every field is: what stands beside a bound path
below a repeated field is neither bound nor left over (`Binding.Drops`), and so nothing
that is checked of bound fields and of query parameters is checked of it.

* `Binding.sends_iff`: a field is sent unless it is dropped, and nothing else is not sent;
* `Binding.not_forall_sends`: a rule on orders and their items that drops a field.
-/

namespace HttpTranscoding.Binding

/-! ## Sent and dropped fields -/

/-- The field at `d` is part of what a bound path or a path left over leads to, or holds what
a bound path leads to. -/
def Sends (b : Binding) (d : FieldPath) : Prop :=
  (∃ p ∈ b.bound, p.covers d) ∨ (∃ p ∈ b.bound, d.isStrictPrefixOf p) ∨
    ∃ p ∈ b.leftOver, p.covers d

/-- The path `d` and a bound path go through one repeated field, and no bound path leads to
`d`, beyond it or to a message that holds it. -/
def Drops (b : Binding) (d : FieldPath) : Prop :=
  (∀ p ∈ b.bound, ¬p.covers d ∧ ¬d.isStrictPrefixOf p) ∧
    ∃ q : FieldPath, q.isStrictPrefixOf d ∧ q.type.repeated ∧ ∃ p ∈ b.bound, q.isStrictPrefixOf p

instance (b : Binding) (d : FieldPath) : Decidable (b.Sends d) :=
  inferInstanceAs (Decidable (_ ∨ _ ∨ _))

variable {s : Schema} {request : MessageRef} {rule : HttpRule} {b : Binding} {d : FieldPath}

theorem unbound_of_mem_leftOver (h : resolve s request rule = .ok b) {p : FieldPath}
    (hp : p ∈ b.leftOver) : Unbound s request.fullName (b.bound.map (·.fields)) p := by
  rw [leftOver_eq h] at hp
  exact mem_unboundPaths_iff.mp hp

/-- A dropped field is not below a path left over either. -/
theorem not_covers_of_drops (h : resolve s request rule = .ok b) (hd : b.Drops d) {p : FieldPath}
    (hp : p ∈ b.leftOver) : ¬p.covers d := by
  intro hcov
  obtain ⟨-, q, hqd, hrep, p', hp', hqp'⟩ := hd
  have left := unbound_of_mem_leftOver h hp
  have hpd := FieldPath.covers_iff.mp hcov
  obtain ⟨hqd, -⟩ := FieldPath.isStrictPrefixOf_iff.mp hqd
  obtain ⟨hqp', -⟩ := FieldPath.isStrictPrefixOf_iff.mp hqp'
  -- Of two paths to `d` one leads to the other: `p` would end before `q` does, on the bound
  -- path, or else lead through the repeated field at the end of `q`.
  have on_bound : ¬p.fields <+: q.fields := fun hpq =>
    (left.incomparable p'.fields (List.mem_map_of_mem hp') p'.ne_nil).2 (hpq.trans hqp')
  obtain hpq | hqp := List.prefix_or_prefix_of_prefix hpd hqd
  · exact on_bound hpq
  · have hne : q ≠ p := fun e => on_bound (e ▸ List.prefix_rfl)
    exact left.not_repeated (FieldPath.isStrictPrefixOf_iff.mpr ⟨hqp, hne⟩) hrep

theorem sends_or_drops (h : resolve s request rule = .ok b)
    (hd : s.Chain request.fullName d.fields) : b.Sends d ∨ b.Drops d := by
  by_cases hsends : b.Sends d
  · exact .inl hsends
  right
  have hfree : ∀ p ∈ b.bound, ¬p.covers d ∧ ¬d.isStrictPrefixOf p := fun p hp =>
    ⟨fun hcov => hsends (.inl ⟨p, hp, hcov⟩), fun hlt => hsends (.inr (.inl ⟨p, hp, hlt⟩))⟩
  refine ⟨hfree, ?_⟩
  obtain ⟨_, hmem, hpd⟩ | ⟨_, hmem, hdp⟩ | ⟨p, hp, hpd⟩ |
      ⟨init, g, rest, rest', hsplit, hne, hrep, hmem, hne'⟩ :=
    hd.bound_or_unbound (b.bound.map (·.fields))
  · obtain ⟨p, hp, rfl⟩ := List.mem_map.mp hmem
    exact absurd (FieldPath.covers_iff.mpr hpd) (hfree p hp).1
  · obtain ⟨p, hp, rfl⟩ := List.mem_map.mp hmem
    have hne : d ≠ p := fun e => (hfree p hp).1 (FieldPath.covers_iff.mpr (e ▸ List.prefix_rfl))
    exact absurd (FieldPath.isStrictPrefixOf_iff.mpr ⟨hdp, hne⟩) (hfree p hp).2
  · have left : p ∈ b.leftOver := by rwa [leftOver_eq h]
    exact absurd (.inr (.inr ⟨p, left, FieldPath.covers_iff.mpr hpd⟩)) hsends
  · obtain ⟨p, hp, hsplit'⟩ := List.mem_map.mp hmem
    exact ⟨⟨init ++ [g], by simp⟩, FieldPath.append_isStrictPrefixOf hsplit hne,
      by rwa [FieldPath.type_append], p, hp, FieldPath.append_isStrictPrefixOf hsplit' hne'⟩

/-- A field of the request is sent exactly if it is not dropped: no field is lost except below
a repeated field that a path of the rule goes through. -/
theorem sends_iff (h : resolve s request rule = .ok b)
    (hd : s.Chain request.fullName d.fields) : b.Sends d ↔ ¬b.Drops d := by
  constructor
  · rintro (⟨p, hp, hcov⟩ | ⟨p, hp, hlt⟩ | ⟨p, hp, hcov⟩) hdrops
    · exact (hdrops.1 p hp).1 hcov
    · exact (hdrops.1 p hp).2 hlt
    · exact not_covers_of_drops h hdrops hp hcov
  · intro hkept
    exact (sends_or_drops h hd).resolve_right hkept

/-! ## A field that is lost -/

def itemId : Field := ⟨"v1.Item", 0, "id", 1, ⟨.string, false, none⟩⟩

def itemLabel : Field := ⟨"v1.Item", 1, "label", 2, ⟨.string, false, none⟩⟩

def orderName : Field := ⟨"v1.Order", 0, "name", 1, ⟨.string, false, none⟩⟩

def orderItems : Field := ⟨"v1.Order", 1, "items", 2, ⟨.message, true, some ⟨"v1.Item", false⟩⟩⟩

/-- A rule that binds the identifiers of an order's items. -/
def orderRule : HttpRule :=
  ⟨some (.standard .get "/v1/{items.id}"), "", "", []⟩

/-- Orders, the items of an order, and a method for them under the rule. -/
def orderFile : FileDecl where
  name := "orders.proto"
  package := "v1"
  messages := [
    ⟨"Item", false, [⟨"id", 1, .string, false, ""⟩, ⟨"label", 2, .string, false, ""⟩], []⟩,
    ⟨"Order", false,
      [⟨"name", 1, .string, false, ""⟩, ⟨"items", 2, .message, true, ".v1.Item"⟩], []⟩]
  services := [⟨"Orders", [⟨"GetOrder", ".v1.Order", ".v1.Order", some orderRule⟩]⟩]
  spans := []

def getOrder : Method :=
  ⟨"v1.Orders.GetOrder", ⟨"v1.Order", false⟩, ⟨"v1.Order", false⟩, some orderRule,
    .ofElement "orders.proto" "v1.Orders.GetOrder"⟩

def orderSchema : Schema where
  messages := [⟨"v1.Item", "orders.proto", false, [itemId, itemLabel]⟩,
    ⟨"v1.Order", "orders.proto", false, [orderName, orderItems]⟩]
  methods := [getOrder]
  targets := ["orders.proto"]

/-- The identifiers are bound, the name is left over, and the labels are neither. -/
def orderBinding : Binding :=
  ⟨some .get, "/v1/{items.id}", .absent, [], [.cons orderItems (.single itemId)],
    [.single orderName], "", 0⟩

def labelPath : FieldPath :=
  .cons orderItems (.single itemLabel)

theorem build_orderFile : Schema.build [orderFile] none = .ok orderSchema :=
  rfl

theorem resolve_orderRule : resolve orderSchema getOrder.input orderRule = .ok orderBinding := by
  have hnames : PathTemplate.namesIn orderRule.template = ["items.id"] := by cbv
  exact resolve_of_namesIn_eq hnames rfl (by decide +kernel)

theorem chain_labelPath : orderSchema.Chain getOrder.input.fullName labelPath.fields :=
  .cons (t := ⟨"v1.Item", false⟩) (by decide) rfl (.last (by decide))

/-- The labels of an order's items are dropped. -/
theorem drops_labelPath :
    resolve orderSchema getOrder.input orderRule = .ok orderBinding ∧
      orderSchema.Chain getOrder.input.fullName labelPath.fields ∧
      orderBinding.Drops labelPath := by
  refine ⟨resolve_orderRule, chain_labelPath, ?_⟩
  have hlost : ¬orderBinding.Sends labelPath := by decide
  exact not_not.mp fun hkept => hlost ((sends_iff resolve_orderRule chain_labelPath).mpr hkept)

/-- It is not so that every field of a request is sent. -/
theorem not_forall_sends :
    ¬∀ (files : List FileDecl) (s : Schema) (method : Method) (rule : HttpRule) (b : Binding)
        (d : FieldPath), Schema.build files none = .ok s → method ∈ s.methods →
        resolve s method.input rule = .ok b → s.Chain method.input.fullName d.fields →
        b.Sends d := by
  intro h
  have hsent : orderBinding.Sends labelPath :=
    h [orderFile] orderSchema getOrder orderRule _ _ build_orderFile (.head _) resolve_orderRule
      chain_labelPath
  exact absurd hsent (by decide)

end HttpTranscoding.Binding
