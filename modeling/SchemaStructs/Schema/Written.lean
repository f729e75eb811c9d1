import SchemaStructs.Schema.Node

namespace SchemaStructs

/-- A schema as it is written, with the two spellings of the identity and of the definitions
apart, and with names in the order of the text. -/
structure Written where
  title : Option String := none
  description : Option String := none
  id : Option String := none
  legacyId : Option String := none
  metaSchema : Option String := none
  type : Option TypeKeyword := none
  properties : List (String × Written) := []
  additional : Option (Bool ⊕ Written) := none
  items : Option Written := none
  reference : Option String := none
  required : List String := []
  definitions : List (String × Written) := []
  defs : List (String × Written) := []

namespace Written

def untypedExtra : Option (Bool ⊕ Written) → Option Bool
  | some (.inl b) => some b
  | _ => none

/-- Sub-schemas under their steps. Of two entries with one name the later one stays, and
`definitions` come later than `$defs`. -/
def arrange (defs definitions properties : Entries Segment Node) (items extra : Option Node) :
    Entries Segment Node :=
  Entries.insertAll
    (defs ++ definitions ++ properties ++ (items.map (Segment.items, ·)).toList
      ++ (extra.map (Segment.additional, ·)).toList) []

mutual

def node : Written → Node
  | ⟨title, description, id, legacyId, metaSchema, type, properties, additional, items, reference,
      required, definitions, defs⟩ =>
    .mk
      { title, description, id := id.or legacyId, metaSchema, type,
        untypedExtra := untypedExtra additional, reference, required }
      (arrange (nodes .definition defs) (nodes .definition definitions) (nodes .property properties)
        (itemsNode items) (extraNode additional))

def nodes (step : String → Segment) : List (String × Written) → Entries Segment Node
  | [] => []
  | (name, w) :: ws => (step name, w.node) :: nodes step ws

def itemsNode : Option Written → Option Node
  | none => none
  | some w => some w.node

def extraNode : Option (Bool ⊕ Written) → Option Node
  | none => none
  | some (.inl _) => none
  | some (.inr w) => some w.node

end

theorem exists_of_mem_nodes {step : String → Segment} {ws : List (String × Written)}
    {e : Segment × Node} (h : e ∈ nodes step ws) : ∃ name, e.1 = step name := by
  induction ws with
  | nil => simp [nodes] at h
  | cons x ws ih =>
    rcases List.mem_cons.1 h with rfl | h
    · exact ⟨x.1, rfl⟩
    · exact ih h

theorem mem_of_mem_arrange {defs definitions properties : Entries Segment Node}
    {items extra : Option Node} {e : Segment × Node}
    (h : e ∈ arrange defs definitions properties items extra) :
    e ∈ defs ∨ e ∈ definitions ∨ e ∈ properties ∨ (e.1 = .items ∧ items = some e.2) ∨
      (e.1 = .additional ∧ extra = some e.2) := by
  have h := (Entries.mem_or_mem_of_mem_insertAll h).resolve_right List.not_mem_nil
  simp only [List.mem_append, Option.mem_toList, Option.map_eq_some_iff] at h
  rcases h with (((h | h) | h) | ⟨n, hn, rfl⟩) | ⟨n, hn, rfl⟩
  · exact .inl h
  · exact .inr (.inl h)
  · exact .inr (.inr (.inl h))
  · exact .inr (.inr (.inr (.inl ⟨rfl, hn⟩)))
  · exact .inr (.inr (.inr (.inr ⟨rfl, hn⟩)))

theorem extraNode_eq_none {additional : Option (Bool ⊕ Written)}
    (h : (untypedExtra additional).isSome) : extraNode additional = none := by
  match additional with
  | none => rfl
  | some (.inl _) => rfl
  | some (.inr _) => simp [untypedExtra] at h

mutual

theorem canonical_node : (w : Written) → w.node.Canonical
  | ⟨_, _, _, _, _, _, properties, additional, items, _, _, definitions, defs⟩ => by
    rw [node, Node.canonical_mk]
    refine ⟨Entries.ascending_insertAll _ Entries.ascending_nil, fun h => ?_, fun e he => ?_⟩
    · refine Entries.get?_eq_none_of_forall_ne fun e he hs => ?_
      rcases mem_of_mem_arrange he with h' | h' | h' | ⟨h', _⟩ | ⟨_, h'⟩
      · obtain ⟨name, h'⟩ := exists_of_mem_nodes h'
        simp [← hs] at h'
      · obtain ⟨name, h'⟩ := exists_of_mem_nodes h'
        simp [← hs] at h'
      · obtain ⟨name, h'⟩ := exists_of_mem_nodes h'
        simp [← hs] at h'
      · simp [← hs] at h'
      · simp [extraNode_eq_none h] at h'
    · rcases mem_of_mem_arrange he with h' | h' | h' | ⟨_, h'⟩ | ⟨_, h'⟩
      · exact canonical_nodes .definition defs e h'
      · exact canonical_nodes .definition definitions e h'
      · exact canonical_nodes .property properties e h'
      · exact canonical_itemsNode items h'
      · exact canonical_extraNode additional h'

theorem canonical_nodes (step : String → Segment) :
    (ws : List (String × Written)) → ∀ e ∈ nodes step ws, e.2.Canonical
  | [], _, h => absurd h List.not_mem_nil
  | (_, w) :: ws, e, h => by
    rcases List.mem_cons.1 h with rfl | h
    · exact canonical_node w
    · exact canonical_nodes step ws e h

theorem canonical_itemsNode :
    (items : Option Written) → {n : Node} → itemsNode items = some n → n.Canonical
  | some w, _, h => Option.some.inj h ▸ canonical_node w

theorem canonical_extraNode :
    (additional : Option (Bool ⊕ Written)) → {n : Node} → extraNode additional = some n →
      n.Canonical
  | some (.inr w), _, h => Option.some.inj h ▸ canonical_node w

end

def schema (w : Written) : Schema := ⟨w.node, w.canonical_node⟩

end Written

end SchemaStructs
