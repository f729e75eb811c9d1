import SchemaStructs.Proofs.Graph

namespace SchemaStructs

namespace Node

mutual

def pointers : Node → List Pointer
  | mk _ children => [] :: pointersBelow children

def pointersBelow : List (Segment × Node) → List Pointer
  | [] => []
  | (s, n) :: cs => n.pointers.map (s :: ·) ++ pointersBelow cs

end

mutual

theorem length_pointers : (n : Node) → n.pointers.length = n.size
  | mk _ children => by
    rw [pointers, size, List.length_cons, length_pointersBelow children, Nat.add_comm]

theorem length_pointersBelow :
    (cs : List (Segment × Node)) → (pointersBelow cs).length = sizeChildren cs
  | [] => rfl
  | (_, n) :: cs => by
    rw [pointersBelow, sizeChildren, List.length_append, List.length_map, length_pointers n,
      length_pointersBelow cs]

end

variable {n m : Node} {s : Segment} {p : Pointer}

theorem mem_pointersBelow {cs : List (Segment × Node)} (hc : (s, n) ∈ cs)
    (hp : p ∈ n.pointers) : s :: p ∈ pointersBelow cs := by
  induction cs with
  | nil => cases hc
  | cons c cs ih =>
    rw [pointersBelow]
    obtain rfl | hc := List.mem_cons.mp hc
    · exact List.mem_append_left _ (List.mem_map_of_mem hp)
    · exact List.mem_append_right _ (ih hc)

theorem mem_pointers (h : n.lookup p = some m) : p ∈ n.pointers := by
  induction p generalizing n with
  | nil => cases n; exact List.mem_cons_self
  | cons s p ih =>
    rw [lookup_cons] at h
    obtain ⟨c, hc, hp⟩ := Option.bind_eq_some_iff.mp h
    cases n with
    | mk head children =>
      exact List.mem_cons_of_mem _ (mem_pointersBelow (Entries.mem_of_get? hc) (ih hp))

theorem size_le_sizeChildren {cs : List (Segment × Node)} (hc : (s, n) ∈ cs) :
    n.size ≤ sizeChildren cs := by
  induction cs with
  | nil => cases hc
  | cons c cs ih =>
    rw [sizeChildren]
    obtain rfl | hc := List.mem_cons.mp hc
    · exact Nat.le_add_right _ _
    · exact Nat.le_trans (ih hc) (Nat.le_add_left _ _)

theorem size_lt_of_child? (h : n.child? s = some m) : m.size < n.size := by
  cases n with
  | mk head children =>
    have hle : m.size ≤ sizeChildren children := size_le_sizeChildren (Entries.mem_of_get? h)
    rw [size]
    omega

theorem size_pos (n : Node) : 0 < n.size := by
  cases n
  rw [size]
  omega

theorem size_le_of_lookup (h : n.lookup p = some m) : m.size ≤ n.size := by
  induction p generalizing n with
  | nil =>
    obtain rfl : n = m := by simpa using h
    exact Nat.le_refl _
  | cons s p ih =>
    rw [lookup_cons] at h
    obtain ⟨c, hc, hp⟩ := Option.bind_eq_some_iff.mp h
    exact Nat.le_trans (ih hp) (Nat.le_of_lt (size_lt_of_child? hc))

end Node

def Document.locations (i : Nat) : List Document → List Location
  | [] => []
  | d :: ds => d.root.node.pointers.map (Location.mk i) ++ locations (i + 1) ds

theorem Document.mem_locations {i j : Nat} {documents : List Document} {d : Document}
    {p : Pointer} (hd : documents[j]? = some d) (hp : p ∈ d.root.node.pointers) :
    ⟨i + j, p⟩ ∈ locations i documents := by
  induction documents generalizing i j with
  | nil => simp at hd
  | cons d' ds ih =>
    rw [locations]
    cases j with
    | zero =>
      obtain rfl : d' = d := by simpa using hd
      exact List.mem_append_left _ (List.mem_map_of_mem hp)
    | succ j =>
      have hm := ih (i := i + 1) (by simpa using hd)
      rw [Nat.add_right_comm] at hm
      exact List.mem_append_right _ hm

namespace Job

variable {job : Job} {l : Location} {n : Node}

def locations (job : Job) : List Location := Document.locations 0 job.documents

theorem length_locations (job : Job) : job.locations.length = job.size := by
  have h : ∀ i (documents : List Document), (Document.locations i documents).length =
      documents.foldr (fun d n => d.root.node.size + n) 0 := by
    intro i documents
    induction documents generalizing i with
    | nil => rfl
    | cons d ds ih =>
      rw [Document.locations, List.length_append, List.length_map, Node.length_pointers, ih]
      rfl
  exact h 0 job.documents

theorem mem_locations (h : job.nodeAt? l = some n) : l ∈ job.locations := by
  obtain ⟨d, hd, hn⟩ := Option.bind_eq_some_iff.mp h
  have hm := Document.mem_locations (i := 0) hd (Node.mem_pointers hn)
  rwa [Nat.zero_add] at hm

theorem size_le_of_nodeAt? (h : job.nodeAt? l = some n) : n.size ≤ job.size := by
  obtain ⟨d, hd, hn⟩ := Option.bind_eq_some_iff.mp h
  have hd' : ∀ documents : List Document, d ∈ documents →
      d.root.node.size ≤ documents.foldr (fun d n => d.root.node.size + n) 0 := by
    intro documents hm
    induction documents with
    | nil => cases hm
    | cons d' ds ih =>
      obtain rfl | hm := List.mem_cons.mp hm
      · exact Nat.le_add_right _ _
      · exact Nat.le_trans (ih hm) (Nat.le_add_left _ _)
  exact Nat.le_trans (Node.size_le_of_lookup hn) (hd' _ (List.mem_of_getElem? hd))

end Job

end SchemaStructs
