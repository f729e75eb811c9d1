import SchemaStructs.Proofs.Parallel

namespace SchemaStructs

theorem Entries.exists_split {κ α : Type} [Key κ] {k : κ} {a : α} {entries : Entries κ α}
    (h : Ascending entries) (hk : get? k entries = some a) :
    ∃ before after, entries = before ++ (k, a) :: after ∧
      (∀ b, insert k b entries = before ++ (k, b) :: after) ∧ ∀ e ∈ before ++ after, e.1 ≠ k := by
  induction entries with
  | nil => cases hk
  | cons e rest ih =>
    obtain ⟨l, c⟩ := e
    obtain ⟨hlt, hrest⟩ := List.pairwise_cons.mp h
    by_cases hl : k = l
    · subst hl
      rw [get?_cons, if_pos (Key.rank_self k)] at hk
      cases hk
      refine ⟨[], rest, rfl, ?_, ?_⟩
      · intro b
        simp [insert, Key.rank_self]
      · intro e he
        exact Ne.symm (Key.ne_of_rank_lt (hlt e he))
    · rw [get?_cons, if_neg (mt Key.rank_eq_iff.mp hl)] at hk
      obtain ⟨before, after, rfl, hinsert, hne⟩ := ih hrest hk
      have hgt : Key.rank k l = .gt := by
        apply Key.rank_gt_iff.mpr
        exact hlt (k, a) (by simp)
      refine ⟨(l, c) :: before, after, rfl, ?_, ?_⟩
      · intro b
        rw [insert, hgt]
        exact congrArg _ (hinsert b)
      · intro e he
        obtain rfl | he := List.mem_cons.mp he
        · exact Ne.symm hl
        · exact hne e he

theorem Entries.keys_insert {κ α : Type} [Key κ] {k : κ} {entries : Entries κ α}
    (h : Ascending entries) (hk : (get? k entries).isSome) (a : α) :
    (insert k a entries).map Prod.fst = entries.map Prod.fst := by
  obtain ⟨b, hb⟩ := Option.isSome_iff_exists.mp hk
  obtain ⟨before, after, hsplit, hinsert, -⟩ := exists_split h hb
  rw [hinsert, hsplit]
  simp

namespace Segment

def property? : Segment → Option String
  | property name => some name
  | definition _ | items | additional => none

theorem property_ne_additional (name : String) : property name ≠ additional := by
  intro h
  cases h

theorem definition_ne_additional (name : String) : definition name ≠ additional := by
  intro h
  cases h

end Segment

namespace Node

theorem keys_properties (n : Node) :
    n.properties.map Prod.fst = (n.children.map Prod.fst).filterMap Segment.property? := by
  rw [properties, List.map_filterMap, List.filterMap_map]
  congr 1
  funext e
  obtain ⟨s, m⟩ := e
  cases s <;> rfl

def setChild (n : Node) (s : Segment) (m : Node) : Node :=
  mk n.head (Entries.insert s m n.children)

def graft (n : Node) (p : Pointer) (s : Segment) (new : Node) : Node :=
  match p with
  | [] => n.setChild s new
  | t :: p =>
    match n.child? t with
    | none => n
    | some c => n.setChild t (c.graft p s new)

variable {n m c new : Node} {s t : Segment} {p q r : Pointer}

@[simp] theorem head_setChild : (n.setChild s m).head = n.head := rfl

@[simp] theorem child?_setChild_self : (n.setChild s m).child? s = some m :=
  Entries.get?_insert_self s m _

theorem child?_setChild_of_ne (h : t ≠ s) : (n.setChild s m).child? t = n.child? t :=
  Entries.get?_insert_of_ne h m _

theorem graft_of_child? (h : n.child? t = some c) :
    n.graft (t :: p) s new = n.setChild t (c.graft p s new) := by
  rw [graft, h]

theorem graft_of_child?_eq_none (h : n.child? t = none) : n.graft (t :: p) s new = n := by
  rw [graft, h]

@[simp] theorem head_graft : (n.graft p s new).head = n.head := by
  cases p with
  | nil => exact head_setChild
  | cons t p =>
    cases h : n.child? t with
    | none => rw [graft_of_child?_eq_none h]
    | some c => rw [graft_of_child? h, head_setChild]

theorem lookup_graft_append :
    (n.graft (q ++ r) s new).lookup q = (n.lookup q).map fun m => m.graft r s new := by
  induction q generalizing n with
  | nil => rfl
  | cons t q ih =>
    rw [List.cons_append, lookup_cons, lookup_cons]
    cases h : n.child? t with
    | none =>
      rw [graft_of_child?_eq_none h, h]
      rfl
    | some c =>
      rw [graft_of_child? h, child?_setChild_self]
      exact ih

theorem lookup_graft (h : (n.lookup p).isSome) :
    (n.graft p s new).lookup (p ++ s :: q) = new.lookup q := by
  obtain ⟨host, hhost⟩ := Option.isSome_iff_exists.mp h
  have habove : (n.graft (p ++ []) s new).lookup p = _ := lookup_graft_append
  rw [List.append_nil, hhost] at habove
  rw [lookup_append, habove]
  change (host.graft [] s new).lookup (s :: q) = _
  rw [graft, lookup_cons, child?_setChild_self]
  rfl

theorem lookup_graft_of_not_prefix (habove : ¬ q <+: p) (hbelow : ¬ p ++ [s] <+: q) :
    (n.graft p s new).lookup q = n.lookup q := by
  induction q generalizing n p with
  | nil => exact absurd List.nil_prefix habove
  | cons u q ih =>
    rw [lookup_cons, lookup_cons]
    cases p with
    | nil =>
      have hne : u ≠ s := by
        rintro rfl
        exact hbelow ⟨q, rfl⟩
      rw [graft, child?_setChild_of_ne hne]
    | cons t p =>
      cases h : n.child? t with
      | none => rw [graft_of_child?_eq_none h]
      | some c =>
        rw [graft_of_child? h]
        by_cases hu : u = t
        · subst hu
          rw [List.cons_prefix_cons, not_and] at habove
          rw [List.cons_append, List.cons_prefix_cons, not_and] at hbelow
          rw [child?_setChild_self, h]
          exact ih (habove rfl) (hbelow rfl)
        · rw [child?_setChild_of_ne hu]

theorem canonical_setChild (hn : n.Canonical) (hm : m.Canonical)
    (hs : s = .additional → (n.child? s).isSome) : (n.setChild s m).Canonical := by
  cases n with
  | mk head children =>
    obtain ⟨hascending, hextra, hchildren⟩ := canonical_mk.mp hn
    apply canonical_mk.mpr
    refine ⟨Entries.ascending_insert s m hascending, ?_, ?_⟩
    · intro hu
      by_cases ha : s = .additional
      · have hsome := hs ha
        rw [ha, child?, Node.children, hextra hu] at hsome
        cases hsome
      · rw [Entries.get?_insert_of_ne (Ne.symm ha)]
        exact hextra hu
    · intro e he
      obtain rfl | he := Entries.eq_or_mem_of_mem_insert he
      · exact hm
      · exact hchildren e he

theorem canonical_graft (hn : n.Canonical) (hnew : new.Canonical) (hs : s ≠ .additional) :
    (n.graft p s new).Canonical := by
  induction p generalizing n with
  | nil => exact canonical_setChild hn hnew fun h => absurd h hs
  | cons t p ih =>
    cases h : n.child? t with
    | none => rwa [graft_of_child?_eq_none h]
    | some c =>
      rw [graft_of_child? h]
      exact canonical_setChild hn (ih (canonical_child hn h)) fun _ => by rw [h]; rfl

theorem keys_setChild (hn : n.Canonical)
    (hs : (n.child? s).isSome ∨ ∃ name, s = .definition name) :
    (n.setChild s m).properties.map Prod.fst = n.properties.map Prod.fst := by
  cases n with
  | mk head children =>
    rw [keys_properties, keys_properties]
    obtain hs | ⟨name, rfl⟩ := hs
    · exact congrArg _ (Entries.keys_insert (canonical_mk.mp hn).1 hs m)
    · clear hn
      change ((Entries.insert (.definition name) m children).map Prod.fst).filterMap _ =
        (children.map Prod.fst).filterMap _
      induction children with
      | nil => rfl
      | cons e rest ih =>
        obtain ⟨t, c⟩ := e
        rw [Entries.insert]
        split
        next => rfl
        next hr =>
          obtain rfl := Key.rank_eq_iff.mp hr
          rfl
        next => simp only [List.map_cons, List.filterMap_cons, ih]

theorem alike_setChild (hn : n.Canonical)
    (hs : (n.child? s).isSome ∨ ∃ name, s = .definition name) : n.Alike (n.setChild s m) := by
  have hchild : ∀ t, (∀ name, t ≠ .definition name) →
      (n.child? t).isSome = ((n.setChild s m).child? t).isSome := by
    intro t ht
    by_cases hts : t = s
    · obtain hs | ⟨name, hs⟩ := hs
      · rw [hts, hs, child?_setChild_self]
        rfl
      · exact absurd (hts.trans hs) (ht name)
    · rw [child?_setChild_of_ne hts]
  exact
    { title := by rw [head_setChild]
      description := by rw [head_setChild]
      type := by rw [head_setChild]
      untypedExtra := by rw [head_setChild]
      required := by rw [head_setChild]
      reference := by rw [head_setChild]
      properties := (keys_setChild hn hs).symm
      items := hchild .items nofun
      extra := hchild .additional nofun }

theorem Alike.refl (n : Node) : n.Alike n := ⟨rfl, rfl, rfl, rfl, rfl, rfl, rfl, rfl, rfl⟩

theorem alike_graft (hn : n.Canonical)
    (hs : (n.lookup (p.join s)).isSome ∨ ∃ name, s = .definition name) :
    n.Alike (n.graft p s new) := by
  cases p with
  | nil =>
    refine alike_setChild hn (hs.imp_left ?_)
    intro h
    simpa [Pointer.join, lookup_cons] using h
  | cons t p =>
    cases h : n.child? t with
    | none =>
      rw [graft_of_child?_eq_none h]
      exact .refl n
    | some c =>
      rw [graft_of_child? h]
      exact alike_setChild hn (.inl (by rw [h]; rfl))

theorem unnamedDefinition?_eq_none_iff : n.unnamedDefinition? = none ↔
    ∀ e ∈ n.children, e.1 ≠ .definition "" ∧ e.2.unnamedDefinition? = none := by
  cases n with
  | mk head children =>
    rw [unnamedDefinition?, Node.children]
    induction children with
    | nil => simp [unnamedInChildren?]
    | cons e rest ih =>
      obtain ⟨s, m⟩ := e
      rw [unnamedInChildren?]
      by_cases hs : s = .definition ""
      · simp [hs]
      · simp [hs, ih]

theorem unnamedDefinition?_setChild (hn : n.unnamedDefinition? = none)
    (hs : s ≠ .definition "") (hm : m.unnamedDefinition? = none) :
    (n.setChild s m).unnamedDefinition? = none := by
  cases n with
  | mk head children =>
    apply unnamedDefinition?_eq_none_iff.mpr
    intro e he
    obtain rfl | he := Entries.eq_or_mem_of_mem_insert he
    · exact ⟨hs, hm⟩
    · exact unnamedDefinition?_eq_none_iff.mp hn e he

theorem unnamedDefinition?_graft (hn : n.unnamedDefinition? = none) (hs : s ≠ .definition "")
    (hnew : new.unnamedDefinition? = none) : (n.graft p s new).unnamedDefinition? = none := by
  induction p generalizing n with
  | nil => exact unnamedDefinition?_setChild hn hs hnew
  | cons t p ih =>
    cases h : n.child? t with
    | none => rwa [graft_of_child?_eq_none h]
    | some c =>
      obtain ⟨ht, hc⟩ := unnamedDefinition?_eq_none_iff.mp hn _ (Entries.mem_of_get? h)
      rw [graft_of_child? h]
      exact unnamedDefinition?_setChild hn ht (ih hc)

end Node

def Schema.graft (root : Schema) (p : Pointer) (s : Segment) (hs : s ≠ .additional)
    (new : Schema) : Schema :=
  ⟨root.node.graft p s new.node, Node.canonical_graft root.canonical new.canonical hs⟩

def Document.graft (d : Document) (p : Pointer) (s : Segment) (hs : s ≠ .additional)
    (new : Schema) : Document :=
  { d with root := d.root.graft p s hs new }

def Location.Covers (l m : Location) : Prop := m.document = l.document ∧ l.pointer <+: m.pointer

theorem Location.covers_join {l m : Location} {s : Segment} (h : l.Covers (m.join s)) :
    l.Covers m ∨ l = m.join s := by
  obtain ⟨hd, hp⟩ := h
  obtain hp | hp := List.prefix_concat_iff.mp hp
  · refine .inr ?_
    cases l
    cases hd
    cases hp
    rfl
  · exact .inl ⟨hd, hp⟩

instance (l m : Location) : Decidable (l.Covers m) := inferInstanceAs (Decidable (_ ∧ _))

/-- The place that the reference at a node points to, where there may be no node. -/
def Reference.pointee? (documents : List Document) (source : Location) : Option Location :=
  (nodeAt? documents source).bind fun n =>
    n.head.reference.bind fun text => (aim documents text source.document).toOption

theorem Reference.pointee?_of_aim {documents : List Document} {source l : Location} {n : Node}
    {text : String} (hn : nodeAt? documents source = some n) (ht : n.head.reference = some text)
    (h : aim documents text source.document = .ok l) : pointee? documents source = some l := by
  simp [pointee?, hn, ht, h, Except.toOption]

theorem Reference.mem_locations_of_pointee? {documents : List Document} {source l : Location}
    (h : pointee? documents source = some l) : source ∈ Document.locations 0 documents := by
  obtain ⟨n, hn, -⟩ := Option.bind_eq_some_iff.mp h
  exact Job.mem_locations (show (Job.mk documents {}).nodeAt? source = some n from hn)

section
variable {documents : List Document} {i : Nat} {d d' : Document}

theorem sameNames_set (hd : documents[i]? = some d) (hnames : d'.names = d.names) :
    SameNames documents (documents.set i d') := by
  rw [SameNames, List.map_set]
  apply List.ext_getElem?
  intro j
  rw [List.getElem?_set]
  split
  next h =>
    subst h
    obtain ⟨hlt, rfl⟩ := List.getElem?_eq_some_iff.mp hd
    simp [hnames, hlt]
  next => rfl

theorem Reference.nodeAt?_set_of_ne {l : Location} (h : l.document ≠ i) :
    nodeAt? (documents.set i d') l = nodeAt? documents l := by
  rw [nodeAt?, nodeAt?, List.getElem?_set_ne (Ne.symm h)]

theorem Reference.nodeAt?_of_document {p : Pointer} (hd : documents[i]? = some d) :
    nodeAt? documents ⟨i, p⟩ = d.lookup p := by
  rw [nodeAt?, hd]
  rfl

theorem Reference.nodeAt?_set {p : Pointer} (hd : documents[i]? = some d) :
    nodeAt? (documents.set i d') ⟨i, p⟩ = d'.lookup p := by
  obtain ⟨hlt, -⟩ := List.getElem?_eq_some_iff.mp hd
  exact nodeAt?_of_document (List.getElem?_set_self hlt)

variable {p : Pointer} {s : Segment} {hs : s ≠ .additional} {new : Schema} {l : Location}
  (hd : documents[i]? = some d)

include hd

theorem sameNames_graft : SameNames documents (documents.set i (d.graft p s hs new)) :=
  sameNames_set hd rfl

theorem Reference.nodeAt?_graft (hs : s ≠ .additional) (new : Schema)
    (hl : ¬ Location.Covers ⟨i, p.join s⟩ l) :
    nodeAt? (documents.set i (d.graft p s hs new)) l = nodeAt? documents l ∨
    ∃ r, l.document = i ∧ p = l.pointer ++ r ∧
      nodeAt? (documents.set i (d.graft p s hs new)) l =
        (nodeAt? documents l).map fun n => n.graft r s new.node := by
  by_cases hi : l.document = i
  · obtain ⟨j, q⟩ := l
    obtain rfl : j = i := hi
    rw [nodeAt?_set hd, nodeAt?_of_document hd]
    by_cases habove : q <+: p
    · obtain ⟨r, rfl⟩ := habove
      exact .inr ⟨r, rfl, rfl, Node.lookup_graft_append⟩
    · exact .inl (Node.lookup_graft_of_not_prefix habove fun h => hl ⟨rfl, h⟩)
  · exact .inl (nodeAt?_set_of_ne hi)

theorem Reference.isSome_nodeAt?_graft (hl : ¬ Location.Covers ⟨i, p.join s⟩ l) :
    (nodeAt? documents l).isSome =
      (nodeAt? (documents.set i (d.graft p s hs new)) l).isSome := by
  obtain h | ⟨r, -, -, h⟩ := nodeAt?_graft hd hs new hl
  · rw [h]
  · rw [h, Option.isSome_map]

/-- Nodes away from a graft have the same keywords as before, and look the same to the walk, unless
the graft adds a property to them. -/
theorem Reference.alike_graft {n n' : Node}
    (hs' : (d.lookup (p.join s)).isSome ∨ ∃ name, s = .definition name)
    (hl : ¬ Location.Covers ⟨i, p.join s⟩ l) (hn : nodeAt? documents l = some n)
    (hn' : nodeAt? (documents.set i (d.graft p s hs new)) l = some n') :
    n'.head = n.head ∧ n.Alike n' := by
  obtain h | ⟨r, hi, rfl, h⟩ := nodeAt?_graft hd hs new hl
  · obtain rfl := Option.some.inj (hn'.symm.trans (h.trans hn))
    exact ⟨rfl, .refl _⟩
  · rw [hn, hn'] at h
    obtain rfl : n' = n.graft r s new.node := Option.some.inj h
    obtain ⟨j, q⟩ := l
    obtain rfl : j = i := hi
    rw [nodeAt?_of_document hd, Document.lookup] at hn
    have hcanonical := Node.canonical_lookup d.root.canonical hn
    refine ⟨Node.head_graft, Node.alike_graft hcanonical (hs'.imp_left ?_)⟩
    simp [Document.lookup, Pointer.join, Node.lookup_append, hn]

end

end SchemaStructs
