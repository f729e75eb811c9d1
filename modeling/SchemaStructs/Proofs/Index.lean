import Mathlib.Logic.Relation
import SchemaStructs.Proofs.Grafting

namespace SchemaStructs

open Relation (ReflTransGen)

namespace Key

variable {κ : Type} [Key κ]

theorem rank_nil_cons (a : κ) (as : List κ) : rank [] (a :: as) = .lt := List.compareLex_nil_cons

theorem rank_cons_cons (a b : κ) (as bs : List κ) :
    rank (a :: as) (b :: bs) = (rank a b).then (rank as bs) :=
  List.compareLex_cons_cons

theorem rank_cons_self (a : κ) (as bs : List κ) : rank (a :: as) (a :: bs) = rank as bs := by
  rw [rank_cons_cons, rank_self, Ordering.eq_then]

theorem rank_cons_of_lt {a b : κ} (h : rank a b = .lt) (as bs : List κ) :
    rank (a :: as) (b :: bs) = .lt := by
  rw [rank_cons_cons, h, Ordering.lt_then]

end Key

namespace Pointer

def Ascending (ps : List Pointer) : Prop := ps.Pairwise fun p q => Key.rank p q = .lt

def endsAtDefinition (p : Pointer) : Bool :=
  match p.getLast? with
  | some (.definition _) => true
  | _ => false

theorem endsAtDefinition_iff {p : Pointer} :
    p.endsAtDefinition ↔ ∃ name, p.getLast? = some (.definition name) := by
  unfold endsAtDefinition
  split <;> simp_all

theorem endsAtDefinition_cons {p : Pointer} (h : p ≠ []) (s : Segment) :
    endsAtDefinition (s :: p) = p.endsAtDefinition := by
  obtain ⟨t, q, rfl⟩ := List.exists_cons_of_ne_nil h
  rw [endsAtDefinition, endsAtDefinition, List.getLast?_cons_cons]

end Pointer

namespace Node

open Pointer (Ascending endsAtDefinition)

variable {n m : Node} {s : Segment} {p : Pointer}

theorem mem_pointersBelow_iff {cs : List (Segment × Node)} :
    p ∈ pointersBelow cs ↔ ∃ s n q, (s, n) ∈ cs ∧ q ∈ n.pointers ∧ p = s :: q := by
  constructor
  · intro h
    induction cs with
    | nil => cases h
    | cons e cs ih =>
      obtain ⟨s, n⟩ := e
      rw [pointersBelow] at h
      obtain h | h := List.mem_append.mp h
      · obtain ⟨q, hq, rfl⟩ := List.mem_map.mp h
        exact ⟨s, n, q, List.mem_cons_self, hq, rfl⟩
      · obtain ⟨t, m, q, hm, hq, rfl⟩ := ih h
        exact ⟨t, m, q, List.mem_cons_of_mem _ hm, hq, rfl⟩
  · rintro ⟨s, n, q, hm, hq, rfl⟩
    exact mem_pointersBelow hm hq

theorem mem_pointers_iff (h : n.Canonical) : p ∈ n.pointers ↔ (n.lookup p).isSome := by
  constructor
  · intro hp
    induction p generalizing n with
    | nil => rfl
    | cons s p ih =>
      cases n with
      | mk head children =>
        obtain hp | hp := List.mem_cons.mp hp
        · cases hp
        obtain ⟨s, m, q, hm, hq, ⟨⟩⟩ := mem_pointersBelow_iff.mp hp
        have hc : (mk head children).child? s = some m :=
          Entries.get?_of_mem (canonical_mk.mp h).1 hm
        rw [lookup_cons, hc]
        exact ih (canonical_child h hc) hq
  · intro hp
    obtain ⟨m, hm⟩ := Option.isSome_iff_exists.mp hp
    exact mem_pointers hm

mutual

theorem ascending_pointers : (n : Node) → n.Canonical → Ascending n.pointers
  | mk head children, h => by
    obtain ⟨hasc, -, hcs⟩ := canonical_mk.mp h
    refine List.pairwise_cons.mpr ⟨?_, ascending_pointersBelow children hasc hcs⟩
    intro p hp
    obtain ⟨s, n, q, -, -, rfl⟩ := mem_pointersBelow_iff.mp hp
    exact Key.rank_nil_cons s q

theorem ascending_pointersBelow : (cs : List (Segment × Node)) → Entries.Ascending cs →
    (∀ e ∈ cs, e.2.Canonical) → Ascending (pointersBelow cs)
  | [], _, _ => List.Pairwise.nil
  | (s, n) :: cs, hasc, hcs => by
    obtain ⟨hlt, hrest⟩ := List.pairwise_cons.mp hasc
    refine List.pairwise_append.mpr ⟨?_, ?_, ?_⟩
    · apply List.pairwise_map.mpr
      refine (ascending_pointers n (hcs _ List.mem_cons_self)).imp ?_
      intro p q hpq
      rwa [Key.rank_cons_self]
    · exact ascending_pointersBelow cs hrest fun e he => hcs e (List.mem_cons_of_mem _ he)
    · -- A pointer through an earlier child ranks below all pointers through a later one.
      intro p hp q hq
      obtain ⟨p, -, rfl⟩ := List.mem_map.mp hp
      obtain ⟨t, m, q, hm, -, rfl⟩ := mem_pointersBelow_iff.mp hq
      exact Key.rank_cons_of_lt (hlt _ hm) p q

end

theorem indexChildren_cons (s : Segment) (n : Node) (cs : List (Segment × Node)) :
    indexChildren ((s, n) :: cs) =
      (if endsAtDefinition [s] then [[s]] else []) ++ n.index.map (s :: ·) ++ indexChildren cs := by
  cases s <;> rfl

mutual

theorem index_eq_filter : (n : Node) → n.index = n.pointers.filter endsAtDefinition
  | mk head children => by
    rw [index, pointers, indexChildren_eq_filter children]
    rfl

theorem indexChildren_eq_filter : (cs : List (Segment × Node)) →
    indexChildren cs = (pointersBelow cs).filter endsAtDefinition
  | [] => rfl
  | (s, mk head children) :: cs => by
    have hbelow : (pointersBelow children).filter (endsAtDefinition ∘ (s :: ·)) =
        (pointersBelow children).filter endsAtDefinition := by
      apply List.filter_congr
      intro p hp
      obtain ⟨t, m, q, -, -, rfl⟩ := mem_pointersBelow_iff.mp hp
      exact Pointer.endsAtDefinition_cons (List.cons_ne_nil _ _) s
    rw [indexChildren_cons, pointersBelow, List.filter_append, indexChildren_eq_filter cs, index,
      pointers, List.filter_map, List.filter_cons, hbelow, indexChildren_eq_filter children]
    cases s <;> rfl

end

def Holds (n m : Node) : Prop :=
  (∃ name, (name, m) ∈ n.definitions) ∨ (∃ name, (name, m) ∈ n.properties) ∨
    n.items? = some m ∨ n.extra? = some m

def HasUnnamed (n : Node) : Prop := ∃ m, ("", m) ∈ n.definitions

theorem definition?_eq_some_iff {e : Segment × Node} {d : String × Node} :
    definition? e = some d ↔ e = (.definition d.1, d.2) := by
  obtain ⟨s, c⟩ := e
  obtain ⟨name, m⟩ := d
  cases s <;> simp [definition?]

theorem mem_definitions_iff {name : String} :
    (name, m) ∈ n.definitions ↔ (.definition name, m) ∈ n.children := by
  simp [definitions, List.mem_filterMap, definition?_eq_some_iff]

theorem Holds.exists_mem (h : n.Holds m) : ∃ s, (s, m) ∈ n.children := by
  obtain ⟨name, h⟩ | ⟨name, h⟩ | h | h := h
  · exact ⟨_, mem_definitions_iff.mp h⟩
  · exact ⟨_, mem_properties_iff.mp h⟩
  · exact ⟨_, Entries.mem_of_get? h⟩
  · exact ⟨_, Entries.mem_of_get? h⟩

theorem holds_of_child? (h : n.child? s = some m) : n.Holds m := by
  have hm : (s, m) ∈ n.children := Entries.mem_of_get? h
  cases s with
  | definition name => exact .inl ⟨name, mem_definitions_iff.mpr hm⟩
  | property name => exact .inr (.inl ⟨name, mem_properties_iff.mpr hm⟩)
  | items => exact .inr (.inr (.inl h))
  | additional => exact .inr (.inr (.inr h))

theorem holds_of_lookup (h : n.lookup p = some m) : ReflTransGen Holds n m := by
  induction p generalizing n with
  | nil =>
    obtain rfl : n = m := by simpa using h
    exact .refl
  | cons s p ih =>
    rw [lookup_cons] at h
    obtain ⟨c, hc, hp⟩ := Option.bind_eq_some_iff.mp h
    exact .head (holds_of_child? hc) (ih hp)

theorem unnamedInChildren?_cases {cs : List (Segment × Node)}
    (h : unnamedInChildren? cs = some p) :
    (p = [] ∧ ∃ m, (.definition "", m) ∈ cs) ∨
      ∃ s m q, (s, m) ∈ cs ∧ m.unnamedDefinition? = some q ∧ p = s :: q := by
  induction cs with
  | nil => cases h
  | cons e cs ih =>
    obtain ⟨s, n⟩ := e
    rw [unnamedInChildren?] at h
    split at h
    next hs =>
      cases h
      exact .inl ⟨rfl, n, hs ▸ List.mem_cons_self⟩
    next =>
      obtain h | ⟨-, h⟩ := Option.or_eq_some_iff.mp h
      · obtain ⟨q, hq, rfl⟩ := Option.map_eq_some_iff.mp h
        exact .inr ⟨s, n, q, List.mem_cons_self, hq, rfl⟩
      · obtain ⟨rfl, m, hm⟩ | ⟨t, m, q, hm, hq, rfl⟩ := ih h
        · exact .inl ⟨rfl, m, List.mem_cons_of_mem _ hm⟩
        · exact .inr ⟨t, m, q, List.mem_cons_of_mem _ hm, hq, rfl⟩

theorem lookup_unnamedDefinition? (h : n.Canonical) (hp : n.unnamedDefinition? = some p) :
    ∃ m, n.lookup p = some m ∧ m.HasUnnamed := by
  induction p generalizing n with
  | nil =>
    cases n with
    | mk head children =>
      obtain ⟨-, m, hm⟩ | ⟨_, _, _, -, -, ⟨⟩⟩ := unnamedInChildren?_cases hp
      exact ⟨_, rfl, m, mem_definitions_iff.mpr hm⟩
  | cons s p ih =>
    cases n with
    | mk head children =>
      obtain ⟨⟨⟩, -⟩ | ⟨s, c, p, hm, hq, ⟨⟩⟩ := unnamedInChildren?_cases hp
      have hc : (mk head children).child? s = some c :=
        Entries.get?_of_mem (canonical_mk.mp h).1 hm
      obtain ⟨m, hl, hu⟩ := ih (canonical_child h hc) hq
      exact ⟨m, by rw [lookup_cons, hc]; exact hl, hu⟩

theorem unnamedDefinition?_ne_none (h : ReflTransGen Holds n m) (hm : m.HasUnnamed) :
    n.unnamedDefinition? ≠ none := by
  intro hnone
  induction h using ReflTransGen.head_induction_on with
  | refl =>
    obtain ⟨c, hc⟩ := hm
    exact (unnamedDefinition?_eq_none_iff.mp hnone _ (mem_definitions_iff.mp hc)).1 rfl
  | head hab _ ih =>
    obtain ⟨s, hs⟩ := hab.exists_mem
    exact ih (unnamedDefinition?_eq_none_iff.mp hnone _ hs).2

theorem unnamedDefinition?_isSome_iff (h : n.Canonical) :
    n.unnamedDefinition?.isSome ↔ ∃ m, ReflTransGen Holds n m ∧ m.HasUnnamed := by
  constructor
  · intro hs
    obtain ⟨p, hp⟩ := Option.isSome_iff_exists.mp hs
    obtain ⟨m, hl, hu⟩ := lookup_unnamedDefinition? h hp
    exact ⟨m, holds_of_lookup hl, hu⟩
  · rintro ⟨m, hr, hu⟩
    exact Option.isSome_iff_ne_none.mpr (unnamedDefinition?_ne_none hr hu)

end Node

namespace Document

/-- The index of definitions is exact. A schema makes no document if and only if a definition
without a name is somewhere in it. Otherwise the index is in ascending order, and holds a pointer if
and only if the pointer ends at a definition and leads to a node. -/
theorem ofSchema_index (source : String) (root : Schema) :
    ((∃ id p, ofSchema source root = .error (.unnamedDefinition id p)) ↔
        ∃ n, ReflTransGen Node.Holds root.node n ∧ n.HasUnnamed) ∧
      ((¬ ∃ n, ReflTransGen Node.Holds root.node n ∧ n.HasUnnamed) →
        ∃ d, ofSchema source root = .ok d ∧ d.root = root ∧
          d.definitions.Pairwise (fun p q => Key.rank p q = .lt) ∧
          ∀ p, p ∈ d.definitions ↔
            (∃ name, p.getLast? = some (.definition name)) ∧ (d.lookup p).isSome) := by
  rw [← Node.unnamedDefinition?_isSome_iff root.canonical]
  cases hu : root.node.unnamedDefinition? with
  | some p => simp [ofSchema, hu]
  | none =>
    have hd : ofSchema source root =
        .ok { id := (declaredId? root).getD (normalizeId source), root } := by
      simp only [ofSchema, hu]
    refine ⟨by simp [hd], fun _ => ⟨_, hd, rfl, ?_, ?_⟩⟩
    · rw [definitions, Node.index_eq_filter]
      exact (Node.ascending_pointers _ root.canonical).filter _
    · intro p
      rw [definitions, Node.index_eq_filter, List.mem_filter, Pointer.endsAtDefinition_iff,
        Node.mem_pointers_iff root.canonical, and_comm]
      rfl

end Document

end SchemaStructs
