import SchemaStructs.Proofs.Dict
import SchemaStructs.Proofs.Kind
import SchemaStructs.Synthesis

namespace SchemaStructs

namespace Node

theorem canonical_child {n m : Node} {s : Segment} (h : n.Canonical) (hc : n.child? s = some m) :
    m.Canonical := by
  cases n with
  | mk head children => exact (canonical_mk.mp h).2.2 _ (Entries.mem_of_get? hc)

theorem canonical_lookup {n m : Node} {p : Pointer} (h : n.Canonical) (hp : n.lookup p = some m) :
    m.Canonical := by
  induction p generalizing n with
  | nil =>
    obtain rfl : n = m := by simpa using hp
    exact h
  | cons s p ih =>
    rw [lookup_cons] at hp
    obtain ⟨c, hc, hp⟩ := Option.bind_eq_some_iff.mp hp
    exact ih (canonical_child h hc) hp

theorem property?_eq_some_iff {e : Segment × Node} {p : String × Node} :
    property? e = some p ↔ e = (.property p.1, p.2) := by
  obtain ⟨s, c⟩ := e
  obtain ⟨key, m⟩ := p
  cases s <;> simp [property?]

theorem mem_properties_iff {n p : Node} {key : String} :
    (key, p) ∈ n.properties ↔ (.property key, p) ∈ n.children := by
  simp [properties, List.mem_filterMap, property?_eq_some_iff]

theorem child?_of_mem_properties {n p : Node} {key : String} (h : n.Canonical)
    (hp : (key, p) ∈ n.properties) : n.child? (.property key) = some p := by
  cases n with
  | mk head children =>
    exact Entries.get?_of_mem (canonical_mk.mp h).1 (mem_properties_iff.mp hp)

end Node

namespace Reference

theorem nodeAt?_of_resolve {documents : List Document} {text : String} {i : Nat} {target : Target}
    (h : resolve documents text i = .ok target) :
    nodeAt? documents target.location = some target.node := by
  unfold resolve at h
  dsimp only at h
  split at h
  next => cases h
  next =>
  split at h
  next => cases h
  next =>
  split at h
  next => cases h
  next hn =>
    cases h
    exact hn

theorem pointer_of_resolve {documents : List Document} {text : String} {i : Nat} {target : Target}
    (h : resolve documents text i = .ok target) :
    Pointer.ofFragment? (split text).2 = some target.location.pointer := by
  unfold resolve at h
  dsimp only at h
  split at h
  next => cases h
  next =>
  split at h
  next => cases h
  next hp =>
  split at h
  next => cases h
  next =>
    cases h
    exact hp

end Reference

namespace Job

variable (job : Job)

def nodeAt? (l : Location) : Option Node := Reference.nodeAt? job.documents l

/-- From a node that is no struct to the one node that its type is made of. -/
inductive Link : Location → Location → Prop
  | reference {l : Location} {n : Node} {text : String} {target : Target}
    (hn : job.nodeAt? l = some n) (hk : n.kind? = some (.reference text))
    (ht : Reference.resolve job.documents text l.document = .ok target) : Link l target.location
  | items {l : Location} {n m : Node}
    (hn : job.nodeAt? l = some n) (hk : n.kind? = some (.array (some m))) : Link l (l.join .items)
  | value {l : Location} {n m : Node}
    (hn : job.nodeAt? l = some n) (hk : n.kind? = some (.map (some m))) :
    Link l (l.join .additional)

inductive Part : Location → Location → Prop
  | property {l : Location} {n p : Node} {key : String}
    (hn : job.nodeAt? l = some n) (hs : n.isStruct) (hp : (key, p) ∈ n.properties) :
    Part l (l.join (.property key))
  | extra {l : Location} {n e : Node}
    (hn : job.nodeAt? l = some n) (hs : n.isStruct) (he : n.extra? = some e) :
    Part l (l.join .additional)

def Edge (l m : Location) : Prop := job.Link l m ∨ job.Part l m

inductive Live : Location → Prop
  | root {i : Nat} (h : i < job.documents.length) : Live (.root i)
  | edge {l m : Location} (hl : Live l) (h : job.Edge l m) : Live m

def IsStructAt (l : Location) : Prop := ∃ n, job.nodeAt? l = some n ∧ n.isStruct

variable {job} {l m : Location} {n : Node}

theorem nodeAt?_root {i : Nat} {d : Document} (h : job.documents[i]? = some d) :
    job.nodeAt? (.root i) = some d.root.node := by
  simp [nodeAt?, Reference.nodeAt?, Location.root, Pointer.root, Document.lookup, h]

theorem nodeAt?_join (h : job.nodeAt? l = some n) (s : Segment) :
    job.nodeAt? (l.join s) = n.child? s := by
  obtain ⟨d, hd, hn⟩ := Option.bind_eq_some_iff.mp h
  have hj : job.nodeAt? (l.join s) = d.root.node.lookup (l.pointer ++ [s]) := by
    simp [nodeAt?, Reference.nodeAt?, Location.join, Pointer.join, Document.lookup, hd]
  rw [hj, Node.lookup_append, show d.root.node.lookup l.pointer = some n from hn]
  simp [Node.lookup_cons]

theorem canonical_nodeAt? (h : job.nodeAt? l = some n) : n.Canonical := by
  obtain ⟨d, _, hn⟩ := Option.bind_eq_some_iff.mp h
  exact Node.canonical_lookup d.root.canonical hn

theorem nodeAt?_items {items : Node} (hn : job.nodeAt? l = some n)
    (hk : n.kind? = some (.array (some items))) : job.nodeAt? (l.join .items) = some items := by
  rw [nodeAt?_join hn]
  exact Node.items?_of_kind? hk

theorem nodeAt?_value {value : Node} (hn : job.nodeAt? l = some n)
    (hk : n.kind? = some (.map (some value))) :
    job.nodeAt? (l.join .additional) = some value := by
  rw [nodeAt?_join hn]
  exact Node.extra?_of_kind?_map hk

theorem nodeAt?_property {key : String} {p : Node} (hn : job.nodeAt? l = some n)
    (hp : (key, p) ∈ n.properties) : job.nodeAt? (l.join (.property key)) = some p := by
  rw [nodeAt?_join hn]
  exact Node.child?_of_mem_properties (canonical_nodeAt? hn) hp

theorem nodeAt?_extra {e : Node} (hn : job.nodeAt? l = some n) (he : n.extra? = some e) :
    job.nodeAt? (l.join .additional) = some e := by
  rw [nodeAt?_join hn]
  exact he

theorem Link.exists_node (h : job.Link l m) : ∃ n, job.nodeAt? m = some n := by
  cases h with
  | reference hn hk ht => exact ⟨_, Reference.nodeAt?_of_resolve ht⟩
  | items hn hk => exact ⟨_, nodeAt?_items hn hk⟩
  | value hn hk => exact ⟨_, nodeAt?_value hn hk⟩

theorem Link.not_isStructAt (h : job.Link l m) : ¬ job.IsStructAt l := by
  rintro ⟨n, hn, hs⟩
  cases h with
  | reference hn' hk | items hn' hk | value hn' hk =>
    obtain rfl : n = _ := Option.some.inj (hn.symm.trans hn')
    simp [Node.isStruct, hk] at hs

theorem Part.isStructAt (h : job.Part l m) : job.IsStructAt l := by
  cases h with
  | property hn hs | extra hn hs => exact ⟨_, hn, hs⟩

theorem Link.unique {m' : Location} (h : job.Link l m) (h' : job.Link l m') : m = m' := by
  cases h with
  | reference hn hk ht | items hn hk | value hn hk =>
    cases h' with
    | reference hn' hk' ht' | items hn' hk' | value hn' hk' => simp_all

end Job

end SchemaStructs
