import SchemaStructs.Schema.Kind

namespace SchemaStructs

deriving instance DecidableEq for Kind

namespace Node

def isStruct (n : Node) : Bool :=
  match n.kind? with
  | some (.struct _) => true
  | some .emptyObject => true
  | _ => false

def leafType? (n : Node) : Option TypeDesc :=
  match n.kind? with
  | some (.primitive p) => some (.primitive p)
  | some .any => some .any
  | some (.array none) => some (.slice .any)
  | some (.map none) => some (.map .any)
  | _ => none

variable {n m : Node}

theorem isStruct_iff :
    n.isStruct ↔ (∃ extra, n.kind? = some (.struct extra)) ∨ n.kind? = some .emptyObject := by
  unfold isStruct
  split <;> simp_all

theorem isStruct_of_leafType? {τ : TypeDesc} (h : n.leafType? = some τ) : n.isStruct = false := by
  unfold leafType? at h
  unfold isStruct
  split at h <;> simp_all

theorem structuralKind?_cases {k : Kind} (h : n.structuralKind? = some k) :
    k = .array n.items? ∨ k = n.objectKind := by
  unfold structuralKind? at h
  split at h
  next items hi => simp_all
  next => split at h <;> simp_all

/-- Whatever a node is, the nodes it is made of are its own items and its own extra properties. -/
theorem kind?_cases {k : Kind} (h : n.kind? = some k) :
    (∃ text, k = .reference text) ∨ (∃ p, k = .primitive p) ∨ k = .array n.items? ∨
      k = n.objectKind ∨ k = .any := by
  unfold kind? at h
  split at h
  next text _ => exact .inl ⟨text, (Option.some.inj h).symm⟩
  next =>
  split at h
  next p _ => exact .inr (.inl ⟨p, (Option.some.inj h).symm⟩)
  next =>
  split at h
  next => exact .inr (.inr (.inl (Option.some.inj h).symm))
  next =>
  split at h
  next => exact .inr (.inr (.inr (.inl (Option.some.inj h).symm)))
  next =>
  split at h
  next =>
    cases hk : n.structuralKind? with
    | none => simp_all
    | some k' =>
      obtain rfl : k' = k := by simpa [hk] using h
      exact .inr (.inr ((structuralKind?_cases hk).imp_right .inl))
  next => exact .inr (.inr ((structuralKind?_cases h).imp_right .inl))

theorem objectKind_cases :
    (n.properties ≠ [] ∧ n.objectKind = .struct n.extra?) ∨
      (∃ value, n.properties = [] ∧ n.extra? = some value ∧ n.objectKind = .map (some value)) ∨
      (n.properties = [] ∧ n.extra? = none ∧
        (n.objectKind = .map none ∨ n.objectKind = .emptyObject)) := by
  unfold objectKind
  split
  · simp_all
  · simp_all
  · split <;> simp_all

theorem reference_of_kind? {text : String} (h : n.kind? = some (.reference text)) :
    n.head.reference = some text := by
  have ho := n.objectKind_cases
  have hs := @structuralKind?_cases n
  unfold kind? at h
  split at h
  next hr => simp_all
  next =>
  split at h
  next => cases h
  next =>
  split at h
  next => cases h
  next =>
  split at h
  next => grind
  next => cases hk : n.structuralKind? <;> grind

theorem items?_of_kind? (h : n.kind? = some (.array (some m))) : n.items? = some m := by
  have hk := kind?_cases h
  have ho := n.objectKind_cases
  grind

theorem extra?_of_kind?_map (h : n.kind? = some (.map (some m))) : n.extra? = some m := by
  have hk := kind?_cases h
  have ho := n.objectKind_cases
  grind

theorem extra?_of_kind?_struct {extra : Option Node} (h : n.kind? = some (.struct extra)) :
    n.extra? = extra := by
  have hk := kind?_cases h
  have ho := n.objectKind_cases
  grind

theorem parts_of_kind?_emptyObject (h : n.kind? = some .emptyObject) :
    n.properties = [] ∧ n.extra? = none := by
  have hk := kind?_cases h
  have ho := n.objectKind_cases
  grind

end Node

end SchemaStructs
