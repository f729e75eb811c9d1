import SchemaStructs.Proofs.Graph

namespace SchemaStructs

structure Slot where
  segment : Segment
  node : Node
  /-- The key under which the type of the node is made. -/
  key : String
  base : String
  jsonName : String
  required : Bool
  wrap : TypeDesc → TypeDesc

namespace Slot

def ofProperty (n : Node) (p : String × Node) : Slot :=
  ⟨.property p.1, p.2, p.1, Naming.fieldName p.1, p.1, n.isRequired p.1, id⟩

def ofExtra (name : String) (e : Node) : Slot :=
  ⟨.additional, e, name ++ "Value", "AdditionalProperties", "-", false, .map⟩

def add (slot : Slot) (fields : Dict String Field) (type : TypeDesc) : Dict String Field :=
  Synthesis.addField fields slot.base slot.jsonName (slot.wrap type) slot.required
    slot.node.head.description

end Slot

def Node.slots (n : Node) (name : String) : List Slot :=
  n.properties.map (Slot.ofProperty n) ++ n.extra?.toList.map (Slot.ofExtra name)

structure Entry where
  jsonName : String
  required : Bool
  description : Option String
  type : TypeDesc
  deriving DecidableEq

def Field.entry (f : Field) : Entry := ⟨f.jsonName, f.required, f.description, f.type⟩

def Slot.entry (slot : Slot) (type : TypeDesc) : Entry :=
  ⟨slot.jsonName, slot.required, slot.node.head.description, slot.wrap type⟩

def Node.entries (n : Node) (types : Location → TypeDesc) (l : Location) : List Entry :=
  n.properties.map (fun (key, p) =>
    ⟨key, n.isRequired key, p.head.description, types (l.join (.property key))⟩) ++
  n.extra?.toList.map (fun e =>
    ⟨"-", false, e.head.description, .map (types (l.join .additional))⟩)

theorem Node.entries_eq_map_slots (n : Node) (types : Location → TypeDesc) (l : Location)
    (name : String) :
    n.entries types l =
      (n.slots name).map fun slot => slot.entry (types (l.join slot.segment)) := by
  rw [entries, slots, List.map_append, List.map_map, List.map_map]
  rfl

namespace Job

variable (job : Job) (names : Location → Option String)

/-- The type of a node, when structs have these names. No step of it looks at what has been made
before: a reference has the type of its target, and only at a struct does it stop. -/
inductive HasType : Location → TypeDesc → Prop
  | leaf {l : Location} {n : Node} {τ : TypeDesc}
    (hn : job.nodeAt? l = some n) (ht : n.leafType? = some τ) : HasType l τ
  | reference {l : Location} {n : Node} {text : String} {target : Target} {τ : TypeDesc}
    (hn : job.nodeAt? l = some n) (hk : n.kind? = some (.reference text))
    (ht : Reference.resolve job.documents text l.document = .ok target)
    (h : HasType target.location τ) : HasType l τ
  | items {l : Location} {n m : Node} {τ : TypeDesc}
    (hn : job.nodeAt? l = some n) (hk : n.kind? = some (.array (some m)))
    (h : HasType (l.join .items) τ) : HasType l (.slice τ)
  | value {l : Location} {n m : Node} {τ : TypeDesc}
    (hn : job.nodeAt? l = some n) (hk : n.kind? = some (.map (some m)))
    (h : HasType (l.join .additional) τ) : HasType l (.map τ)
  | struct {l : Location} {n : Node} {name : String}
    (hn : job.nodeAt? l = some n) (hs : n.isStruct) (hname : names l = some name) :
    HasType l (.struct name)

structure Describes (types : Location → TypeDesc) (l : Location) (n : Node) (s : Struct) :
    Prop where
  origin : s.origin = job.origin l
  description : s.description = n.head.description
  fields : (s.fields.values.map Field.entry).Perm (n.entries types l)

def Fills (l : Location) (slot : Slot) (f : Field) : Prop :=
  ∃ τ, job.HasType names (l.join slot.segment) τ ∧ f.entry = slot.entry τ

variable {job names} {l m : Location} {n : Node} {τ τ' : TypeDesc}

theorem HasType.mono {names' : Location → Option String}
    (hle : ∀ l name, names l = some name → names' l = some name) (h : job.HasType names l τ) :
    job.HasType names' l τ := by
  induction h with
  | leaf hn ht => exact .leaf hn ht
  | reference hn hk ht _ ih => exact .reference hn hk ht ih
  | items hn hk _ ih => exact .items hn hk ih
  | value hn hk _ ih => exact .value hn hk ih
  | struct hn hs hname => exact .struct hn hs (hle _ _ hname)

theorem HasType.unique (h : job.HasType names l τ) (h' : job.HasType names l τ') : τ = τ' := by
  induction h generalizing τ' with
  | leaf hn ht =>
    have hs := Node.isStruct_of_leafType? ht
    cases h' <;> simp_all [Node.leafType?]
  | reference hn hk ht _ ih =>
    cases h' with
    | reference hn' hk' ht' h' =>
      simp_all only [Option.some.injEq, Kind.reference.injEq, Except.ok.injEq]
      exact ih h'
    | _ => simp_all [Node.leafType?, Node.isStruct]
  | items hn hk _ ih =>
    cases h' with
    | items hn' hk' h' => rw [ih h']
    | _ => simp_all [Node.leafType?, Node.isStruct]
  | value hn hk _ ih =>
    cases h' with
    | value hn' hk' h' => rw [ih h']
    | _ => simp_all [Node.leafType?, Node.isStruct]
  | struct hn hs hname =>
    cases h' with
    | leaf hn' ht' =>
      have hs' := Node.isStruct_of_leafType? ht'
      simp_all
    | _ => simp_all [Node.isStruct]

theorem nodeAt?_slot {name : String} {slot : Slot} (hn : job.nodeAt? l = some n)
    (h : slot ∈ n.slots name) : job.nodeAt? (l.join slot.segment) = some slot.node := by
  obtain h | h := List.mem_append.mp h
  · obtain ⟨⟨key, p⟩, hp, rfl⟩ := List.mem_map.mp h
    exact nodeAt?_property hn hp
  · obtain ⟨e, he, rfl⟩ := List.mem_map.mp h
    exact nodeAt?_extra hn (Option.mem_toList.mp he)

theorem part_slot {name : String} {slot : Slot} (hn : job.nodeAt? l = some n) (hs : n.isStruct)
    (h : slot ∈ n.slots name) : job.Part l (l.join slot.segment) := by
  obtain h | h := List.mem_append.mp h
  · obtain ⟨⟨key, p⟩, hp, rfl⟩ := List.mem_map.mp h
    exact .property hn hs hp
  · obtain ⟨e, he, rfl⟩ := List.mem_map.mp h
    exact .extra hn hs (Option.mem_toList.mp he)

theorem Part.exists_slot (h : job.Part l m) (hn : job.nodeAt? l = some n) (name : String) :
    ∃ slot ∈ n.slots name, m = l.join slot.segment := by
  cases h with
  | property hn' hs hp =>
    obtain rfl := Option.some.inj (hn'.symm.trans hn)
    exact ⟨_, List.mem_append_left _ (List.mem_map_of_mem hp), rfl⟩
  | extra hn' hs he =>
    obtain rfl := Option.some.inj (hn'.symm.trans hn)
    exact ⟨_, List.mem_append_right _ (List.mem_map_of_mem (Option.mem_toList.mpr he)), rfl⟩

theorem HasType.of_link (h : job.HasType names l τ) (hl : job.Link l m) :
    ∃ τ', job.HasType names m τ' := by
  cases h with
  | leaf hn ht => cases hl <;> simp_all [Node.leafType?]
  | reference hn hk ht h => exact ⟨_, Link.unique hl (.reference hn hk ht) ▸ h⟩
  | items hn hk h => exact ⟨_, Link.unique hl (.items hn hk) ▸ h⟩
  | value hn hk h => exact ⟨_, Link.unique hl (.value hn hk) ▸ h⟩
  | struct hn hs => exact absurd ⟨_, hn, hs⟩ hl.not_isStructAt

theorem HasType.exists_name (h : job.HasType names l τ) (hs : job.IsStructAt l) :
    ∃ name, names l = some name ∧ τ = .struct name := by
  obtain ⟨n, hn, hs⟩ := hs
  cases h with
  | leaf hn' ht =>
    have hs' := Node.isStruct_of_leafType? ht
    simp_all
  | reference hn' hk | items hn' hk | value hn' hk => simp_all [Node.isStruct]
  | struct _ _ hname => exact ⟨_, hname, rfl⟩

theorem HasType.exists_kind (h : job.HasType names l τ) :
    ∃ n k, job.nodeAt? l = some n ∧ n.kind? = some k := by
  cases h with
  | @leaf _ n _ hn ht =>
    cases hk : n.kind? with
    | none => simp [Node.leafType?, hk] at ht
    | some k => exact ⟨n, k, hn, hk⟩
  | reference hn hk | items hn hk | value hn hk => exact ⟨_, _, hn, hk⟩
  | struct hn hs =>
    obtain ⟨_, hk⟩ | hk := Node.isStruct_iff.mp hs
    · exact ⟨_, _, hn, hk⟩
    · exact ⟨_, _, hn, hk⟩

theorem Fills.mono {names' : Location → Option String} {slot : Slot} {f : Field}
    (hle : ∀ l name, names l = some name → names' l = some name) (h : job.Fills names l slot f) :
    job.Fills names' l slot f := by
  obtain ⟨τ, hτ, he⟩ := h
  exact ⟨τ, hτ.mono hle, he⟩

theorem exists_field_of_fills {slots : List Slot} {fs : List Field} {slot : Slot}
    (h : List.Forall₂ (job.Fills names l) slots fs) (hm : slot ∈ slots) :
    ∃ f ∈ fs, job.Fills names l slot f := by
  induction h with
  | nil => cases hm
  | cons hf _ ih =>
    obtain rfl | hm := List.mem_cons.mp hm
    · exact ⟨_, List.mem_cons_self, hf⟩
    · obtain ⟨f, hmem, hfill⟩ := ih hm
      exact ⟨f, List.mem_cons_of_mem _ hmem, hfill⟩

theorem exists_type_of_fills {slots : List Slot} {fs : List Field} {slot : Slot}
    (h : List.Forall₂ (job.Fills names l) slots fs) (hm : slot ∈ slots) :
    ∃ τ, job.HasType names (l.join slot.segment) τ := by
  obtain ⟨f, -, τ, hτ, -⟩ := exists_field_of_fills h hm
  exact ⟨τ, hτ⟩

theorem map_entry_of_fills {slots : List Slot} {fs : List Field} {types : Location → TypeDesc}
    (h : List.Forall₂ (job.Fills names l) slots fs)
    (ht : ∀ slot ∈ slots, ∀ τ, job.HasType names (l.join slot.segment) τ →
      types (l.join slot.segment) = τ) :
    fs.map Field.entry = slots.map fun slot => slot.entry (types (l.join slot.segment)) := by
  induction h with
  | nil => rfl
  | cons hf _ ih =>
    obtain ⟨τ, hτ, he⟩ := hf
    have hrest := ih fun slot hm => ht slot (List.mem_cons_of_mem _ hm)
    rw [List.map_cons, List.map_cons, he, ← ht _ List.mem_cons_self τ hτ, hrest]

end Job

end SchemaStructs
