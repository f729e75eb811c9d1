import SchemaStructs.Proofs.Roots

namespace SchemaStructs.Synthesis

structure Opens (job : Job) (s : Synthesis) (node : Node) (here : Location) (key name : String)
    (registry : Registry) (events : List Event) : Prop where
  found : job.nodeAt? here = some node
  isStruct : node.isStruct
  unnamed : s.registry.nameOf? here = none
  declared : s.registry.declare here (Naming.typeName node.head.title key) (job.origin here)
    (job.stem? here.document) = .ok (name, registry, events)

structure Passes (job : Job) (I : Synthesis → Prop) (K : Location → String → Prop) : Prop where
  items : ∀ {l key n m}, K l key → job.nodeAt? l = some n → n.kind? = some (.array (some m)) →
    K (l.join .items) key
  value : ∀ {l key n m}, K l key → job.nodeAt? l = some n → n.kind? = some (.map (some m)) →
    K (l.join .additional) key
  target : ∀ {l key n text target}, K l key → job.nodeAt? l = some n →
    n.kind? = some (.reference text) →
    Reference.resolve job.documents text l.document = .ok target →
    K target.location (job.targetKey target.location)
  slot : ∀ {s l key n name registry events slot}, K l key → I s →
    Opens job s n l key name registry events → slot ∈ n.slots name →
    K (l.join slot.segment) slot.key

/-- `I` looks at structs and their names only, and is kept where a struct is opened and where it is
closed. -/
structure Keeps (job : Job) (K : Location → String → Prop) (I : Synthesis → Prop) : Prop
    extends Passes job I K where
  still : ∀ {s s'}, I s → s'.registry = s.registry → s'.openStructs = s.openStructs → I s'
  opened : ∀ {s l key n name registry events}, I s → s.Sound job → K l key →
    Opens job s n l key name registry events → I (s.opened registry events)
  closed : ∀ {s s' k l key n name registry events fields}, I s' → s.Sound job → s'.Sound job →
    Opens job s n l key name registry events →
    Slots (walk job k) l (n.slots name) ∅ (s.opened registry events) (.ok fields) s' →
    I (s'.closed ⟨name, job.origin l, n.head.description, fields⟩)

variable {job : Job} {K : Location → String → Prop} {I : Synthesis → Prop} {s s' : Synthesis}
  {node : Node} {here : Location} {key name : String} {registry : Registry} {events : List Event}

theorem passes_true : Passes job I fun _ _ => True :=
  ⟨fun _ _ _ => trivial, fun _ _ _ => trivial, fun _ _ _ _ => trivial, fun _ _ _ _ => trivial⟩

namespace Opens

variable (h : Opens job s node here key name registry events)

include h

theorem registry_opened : (s.opened registry events).registry =
    s.registry.record ⟨here, name, job.origin here⟩ :=
  (Registry.declare_ok h.unnamed h.declared).1

theorem not_mem : name ∉ s.registry.names := (Registry.declare_ok h.unnamed h.declared).2.1

theorem sound (hs : s.Sound job) : (s.opened registry events).Sound job :=
  hs.opened ⟨node, h.found, h.isStruct⟩ h.unnamed h.declared

theorem mem_opened :
    ⟨here, name, job.origin here⟩ ∈ (s.opened registry events).registry.declarations := by
  rw [h.registry_opened]
  exact List.mem_append_right _ (List.mem_singleton_self _)

theorem get?_opened (hs : s.Sound job) :
    (s.opened registry events).registry.structs.get? name = none := by
  rw [h.registry_opened]
  apply Dict.get?_eq_none_iff.mpr
  intro hk
  exact h.not_mem (hs.consistent.structs name hk)

section
variable {k : Nat} {slots : List Slot} {fields : Dict String Field}
  {r : Except CompileError (Dict String Field)}
  (hf : Slots (walk job k) here slots fields (s.opened registry events) r s')

include hf

theorem mem_declarations : ⟨here, name, job.origin here⟩ ∈ s'.registry.declarations := by
  have hg : (s.opened registry events).Grown s' :=
    (hf.after fun _ _ _ _ _ _ => walk_after).grown
  exact hg.registry.declarations.subset h.mem_opened

/-- While the slots of a struct are filled, nothing is stored under its name. -/
theorem get?_eq_none (hs : s.Sound job) : s'.registry.structs.get? name = none := by
  have hg : (s.opened registry events).Grown s' :=
    (hf.after fun _ _ _ _ _ _ => walk_after).grown
  have hname : name ∈ (s.opened registry events).registry.names :=
    Registry.mem_names.mpr ⟨_, h.mem_opened, rfl⟩
  rw [hg.registry.structs name hname]
  exact h.get?_opened hs

end

end Opens

theorem Keeps.slots (h : Keeps job K I) {n : Nat} {fields : Dict String Field}
    {r : Except CompileError (Dict String Field)}
    (ho : Opens job s node here key name registry events)
    (hf : Slots (walk job n) here (node.slots name) fields (s.opened registry events) r s')
    (hw : ∀ node l key s r s', walk job n node l key s = (r, s') → job.nodeAt? l = some node →
      K l key → s.Sound job → I s → I s')
    (hk : K here key) (hs : s.Sound job) (hi : I s) : s'.Sound job ∧ I s' := by
  have hw' : ∀ slot ∈ node.slots name, ∀ s₁ r s₂,
      walk job n slot.node (here.join slot.segment) slot.key s₁ = (r, s₂) →
      s₁.Sound job ∧ I s₁ → s₂.Sound job ∧ I s₂ := by
    rintro slot hm s₁ r s₂ hwalk ⟨hs₁, hi₁⟩
    have hn := Job.nodeAt?_slot ho.found hm
    constructor
    · exact (walk_faithful n _ _ _ _ _ _ hwalk hn hs₁).1
    · exact hw _ _ _ _ _ _ hwalk hn (h.slot hk hi ho hm) hs₁ hi₁
  exact hf.keeps hw' ⟨ho.sound hs, h.opened hi hs hk ho⟩

/-- What opening and closing keep, every walk keeps, also one that fails. -/
theorem Keeps.walk (h : Keeps job K I) {n : Nat} {r : Except CompileError TypeDesc}
    (hw : walk job n node here key s = (r, s')) (hn : job.nodeAt? here = some node)
    (hk : K here key) (hs : s.Sound job) (hi : I s) : I s' := by
  induction n generalizing node here key s r s' with
  | zero =>
    cases hw
    exact hi
  | succ n ih =>
    cases walk_succ_iff.mp hw with
    | shape | leaf | unresolved | known | reopened | unnamed => exact hi
    | cached | forward | cycle => exact h.still hi rfl rfl
    | items hkind hw₁ =>
      exact ih hw₁ (Job.nodeAt?_items hn hkind) (h.items hk hn hkind) hs hi
    | value hkind hw₁ =>
      exact ih hw₁ (Job.nodeAt?_value hn hkind) (h.value hk hn hkind) hs hi
    | entered hkind ht hc he hw₁ | lost hkind ht hc he hw₁ =>
      have hi₁ := ih hw₁ (Reference.nodeAt?_of_resolve ht) (h.target hk hn hkind ht)
        ((hs.marked _ _).enter _) (h.still hi rfl rfl)
      exact h.still hi₁ rfl rfl
    | built hst hname hd hf =>
      have ho : Opens job s node here key _ _ _ := ⟨hn, hst, hname, hd⟩
      obtain ⟨hs₁, hi₁⟩ := h.slots ho hf (fun _ _ _ _ _ _ => ih) hk hs hi
      exact h.closed hi₁ hs hs₁ ho hf
    | unbuilt hst hname hd hf =>
      have ho : Opens job s node here key _ _ _ := ⟨hn, hst, hname, hd⟩
      exact (h.slots ho hf (fun _ _ _ _ _ _ => ih) hk hs hi).2

theorem Keeps.roots (h : Keeps job K I) {is : List Nat} {r : Except CompileError Unit}
    (hr : Roots job is s r s') (hi : ∀ i ∈ is, i < job.documents.length)
    (hk : ∀ i < job.documents.length, K (.root i) (job.rootKey i)) (hs : s.Sound job)
    (hI : I s) : I s' := by
  have hkeep : s'.Sound job ∧ I s' := by
    refine hr.keeps (I := fun s => s.Sound job ∧ I s) hi ?_ ⟨hs, hI⟩
    rintro i node s₁ r s₂ hlt hn hw ⟨hs₁, hI₁⟩
    exact ⟨(walk_faithful _ _ _ _ _ _ _ hw hn hs₁).1, h.walk hw hn (hk i hlt) hs₁ hI₁⟩
  exact hkeep.2

end SchemaStructs.Synthesis
