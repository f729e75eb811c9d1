import SchemaStructs.Proofs.Dict
import SchemaStructs.Schema.Written

namespace SchemaStructs

namespace Entries

variable {κ α : Type} [Key κ]

def last? (k : κ) : Entries κ α → Option α
  | [] => none
  | (k', a) :: rest => (last? k rest).or (if Key.rank k k' = .eq then some a else none)

theorem last?_append (k : κ) (xs ys : Entries κ α) :
    last? k (xs ++ ys) = (last? k ys).or (last? k xs) := by
  induction xs with
  | nil => simp [last?]
  | cons x xs ih => rw [List.cons_append, last?, last?, ih, Option.or_assoc]

theorem last?_eq_none {k : κ} {entries : Entries κ α} (h : ∀ e ∈ entries, k ≠ e.1) :
    last? k entries = none := by
  induction entries with
  | nil => rfl
  | cons e rest ih =>
    have hk : Key.rank k e.1 ≠ .eq := fun hr => h e List.mem_cons_self (Key.rank_eq_iff.mp hr)
    rw [last?, ih fun x hx => h x (List.mem_cons_of_mem _ hx), if_neg hk]
    rfl

theorem get?_insertAll (k : κ) (new entries : Entries κ α) :
    get? k (insertAll new entries) = (last? k new).or (get? k entries) := by
  induction new generalizing entries with
  | nil => rfl
  | cons e rest ih =>
    obtain ⟨k', a⟩ := e
    rw [insertAll, List.foldl_cons, ← insertAll, ih, last?, Option.or_assoc]
    by_cases hk : k = k'
    · subst hk
      rw [get?_insert_self, if_pos (Key.rank_self k)]
      rfl
    · rw [get?_insert_of_ne hk, if_neg (mt Key.rank_eq_iff.mp hk)]
      rfl

end Entries

namespace Written

/-- The schema that is written at one step below another. Of two definitions with one name, one
under each keyword, the one under `definitions` counts. -/
def child? (w : Written) : Segment → Option Written
  | .definition name => (Entries.last? name w.definitions).or (Entries.last? name w.defs)
  | .property name => Entries.last? name w.properties
  | .items => w.items
  | .additional => w.additional.bind Sum.getRight?

def find? (w : Written) : Pointer → Option Written
  | [] => some w
  | s :: p => (w.child? s).bind fun v => v.find? p

theorem find?_append (w : Written) (p q : Pointer) :
    w.find? (p ++ q) = (w.find? p).bind fun v => v.find? q := by
  induction p generalizing w with
  | nil => rfl
  | cons s p ih =>
    rw [List.cons_append, find?, find?, Option.bind_assoc]
    congr 1
    funext v
    exact ih v

theorem last?_nodes {step : String → Segment} (hstep : step.Injective) (name : String)
    (ws : List (String × Written)) :
    Entries.last? (step name) (nodes step ws) = (Entries.last? name ws).map node := by
  induction ws with
  | nil => rfl
  | cons e ws ih =>
    obtain ⟨key, w⟩ := e
    rw [nodes, Entries.last?, Entries.last?, ih, Option.map_or]
    simp only [Key.rank_eq_iff, hstep.eq_iff]
    split <;> rfl

theorem last?_nodes_eq_none {step : String → Segment} {s : Segment} (h : ∀ name, s ≠ step name)
    (ws : List (String × Written)) : Entries.last? s (nodes step ws) = none := by
  apply Entries.last?_eq_none
  intro e he
  obtain ⟨name, hname⟩ := exists_of_mem_nodes he
  exact hname ▸ h name

theorem last?_singleton (s t : Segment) (n : Option Node) :
    Entries.last? s (n.map (t, ·)).toList = if s = t then n else none := by
  cases n with
  | none => simp [Entries.last?]
  | some n => simp [Entries.last?]

/-- Decoding keeps every schema that counts at its place. -/
theorem child?_node (w : Written) (s : Segment) : w.node.child? s = (w.child? s).map node := by
  obtain ⟨title, description, id, legacyId, metaSchema, type, properties, additional, items,
    reference, required, definitions, defs⟩ := w
  have hproperty : Segment.property.Injective := fun _ _ => Segment.property.inj
  have hdefinition : Segment.definition.Injective := fun _ _ => Segment.definition.inj
  rw [node, Node.child?, Node.children, arrange, Entries.get?_insertAll]
  simp only [Entries.last?_append, last?_singleton, Entries.get?_nil]
  cases s with
  | definition name =>
    simp [last?_nodes hdefinition, last?_nodes_eq_none, child?, Option.map_or]
  | property name => simp [last?_nodes hproperty, last?_nodes_eq_none, child?]
  | items => cases items <;> simp [last?_nodes_eq_none, child?, itemsNode]
  | additional =>
    match additional with
    | none | some (.inl _) | some (.inr _) => simp [last?_nodes_eq_none, child?, extraNode]

theorem lookup_node (w : Written) (p : Pointer) : w.node.lookup p = (w.find? p).map node := by
  induction p generalizing w with
  | nil => rfl
  | cons s p ih =>
    rw [Node.lookup_cons, find?, child?_node]
    cases w.child? s with
    | none => rfl
    | some v => exact ih v

theorem lookup_definition {w v u : Written} {p q : Pointer} {name : String}
    (hv : w.find? p = some v) (hu : Entries.last? name v.definitions = some u) :
    w.node.lookup (p ++ .definition name :: q) = u.node.lookup q := by
  rw [lookup_node, find?_append, hv, lookup_node]
  simp [find?, child?, hu]

end Written

end SchemaStructs
