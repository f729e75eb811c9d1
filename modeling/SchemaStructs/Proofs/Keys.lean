import SchemaStructs.Proofs.Preservation

namespace SchemaStructs

theorem Registry.declare_of_fail {r r' : Registry} {l : Location} {base origin name : String}
    {qualifier : Option String} {events : List Event} (hp : r.policy = .fail)
    (hl : r.nameOf? l = none) (h : r.declare l base origin qualifier = .ok (name, r', events)) :
    name = base := by
  simp only [declare, hl, hp] at h
  split at h <;> cases h
  rfl

namespace Job

/-- The keys that live nodes are walked with, where every struct has the name that it asks for. -/
inductive Keyed (job : Job) : Location → String → Prop
  | root {i : Nat} (hi : i < job.documents.length) : Keyed job (.root i) (job.rootKey i)
  | items {l : Location} {key : String} {n m : Node} (h : Keyed job l key)
    (hn : job.nodeAt? l = some n) (hk : n.kind? = some (.array (some m))) :
    Keyed job (l.join .items) key
  | value {l : Location} {key : String} {n m : Node} (h : Keyed job l key)
    (hn : job.nodeAt? l = some n) (hk : n.kind? = some (.map (some m))) :
    Keyed job (l.join .additional) key
  | reference {l : Location} {key text : String} {n : Node} {target : Target} (h : Keyed job l key)
    (hn : job.nodeAt? l = some n) (hk : n.kind? = some (.reference text))
    (ht : Reference.resolve job.documents text l.document = .ok target) :
    Keyed job target.location (job.targetKey target.location)
  | property {l : Location} {key name : String} {n p : Node} (h : Keyed job l key)
    (hn : job.nodeAt? l = some n) (hs : n.isStruct) (hp : (name, p) ∈ n.properties) :
    Keyed job (l.join (.property name)) name
  | extra {l : Location} {key : String} {n e : Node} (h : Keyed job l key)
    (hn : job.nodeAt? l = some n) (hs : n.isStruct) (he : n.extra? = some e) :
    Keyed job (l.join .additional) (Naming.typeName n.head.title key ++ "Value")

def Derives (job : Job) (l : Location) (name : String) : Prop :=
  ∃ n key, job.nodeAt? l = some n ∧ n.isStruct ∧ job.Keyed l key ∧
    name = Naming.typeName n.head.title key

variable {job : Job} {l : Location} {key name : String}

theorem Keyed.live (h : job.Keyed l key) : job.Live l := by
  induction h with
  | root hi => exact .root hi
  | items _ hn hk ih => exact .edge ih (.inl (.items hn hk))
  | value _ hn hk ih => exact .edge ih (.inl (.value hn hk))
  | reference _ hn hk ht ih => exact .edge ih (.inl (.reference hn hk ht))
  | property _ hn hs hp ih => exact .edge ih (.inr (.property hn hs hp))
  | extra _ hn hs he ih => exact .edge ih (.inr (.extra hn hs he))

theorem Keyed.slot {n : Node} {slot : Slot} (h : job.Keyed l key) (hn : job.nodeAt? l = some n)
    (hs : n.isStruct) (hm : slot ∈ n.slots (Naming.typeName n.head.title key)) :
    job.Keyed (l.join slot.segment) slot.key := by
  obtain hm | hm := List.mem_append.mp hm
  · obtain ⟨⟨name, p⟩, hp, rfl⟩ := List.mem_map.mp hm
    exact .property h hn hs hp
  · obtain ⟨e, he, rfl⟩ := List.mem_map.mp hm
    exact .extra h hn hs (Option.mem_toList.mp he)

theorem Derives.live (h : job.Derives l name) : job.Live l := by
  obtain ⟨n, key, -, -, hk, -⟩ := h
  exact hk.live

theorem Derives.isStructAt (h : job.Derives l name) : job.IsStructAt l := by
  obtain ⟨n, key, hn, hs, -, -⟩ := h
  exact ⟨n, hn, hs⟩

def Direct (job : Job) : Prop :=
  ∀ l n text target, job.nodeAt? l = some n → n.kind? = some (.reference text) →
    Reference.resolve job.documents text l.document = .ok target →
    .additional ∉ target.location.pointer

def keyDown (job : Job) (document : Nat) : List Segment → String
  | [] => job.rootKey document
  | .definition name :: _ => name
  | .property name :: _ => name
  | .items :: up => job.keyDown document up
  | .additional :: up =>
    match job.nodeAt? ⟨document, up.reverse⟩ with
    | none => job.keyDown document up
    | some n =>
      if n.isStruct then Naming.typeName n.head.title (job.keyDown document up) ++ "Value"
      else job.keyDown document up

def keyAt (job : Job) (l : Location) : String := job.keyDown l.document l.pointer.reverse

theorem keyAt_property (l : Location) : job.keyAt (l.join (.property name)) = name := by
  simp [keyAt, Location.join, Pointer.join, keyDown]

theorem keyAt_items (l : Location) : job.keyAt (l.join .items) = job.keyAt l := by
  simp [keyAt, Location.join, Pointer.join, keyDown]

theorem keyAt_additional {n : Node} (hn : job.nodeAt? l = some n) :
    job.keyAt (l.join .additional) =
      if n.isStruct then Naming.typeName n.head.title (job.keyAt l) ++ "Value"
      else job.keyAt l := by
  simp [keyAt, Location.join, Pointer.join, keyDown, hn]

theorem keyAt_eq_targetKey (h : .additional ∉ l.pointer) : job.keyAt l = job.targetKey l := by
  have hdown : ∀ up : List Segment, .additional ∉ up →
      job.keyDown l.document up = (up.findSome? Segment.name?).getD (job.rootKey l.document) := by
    intro up hup
    induction up with
    | nil => rfl
    | cons s up ih =>
      have hrest : .additional ∉ up := fun hm => hup (List.mem_cons_of_mem _ hm)
      cases s with
      | definition name => rfl
      | property name => rfl
      | items => exact ih hrest
      | additional => exact absurd List.mem_cons_self hup
  apply hdown
  simpa using h

theorem Keyed.eq_keyAt (hd : job.Direct) (h : job.Keyed l key) : key = job.keyAt l := by
  induction h with
  | root hi => rfl
  | items _ hn hk ih => rw [keyAt_items, ih]
  | value _ hn hk ih =>
    rw [keyAt_additional hn, ih]
    simp [Node.isStruct, hk]
  | reference _ hn hk ht _ => rw [keyAt_eq_targetKey (hd _ _ _ _ hn hk ht)]
  | property _ hn hs hp _ => rw [keyAt_property]
  | extra _ hn hs he ih => rw [keyAt_additional hn, if_pos hs, ih]

theorem Derives.unique {name' : String} (hd : job.Direct) (h : job.Derives l name)
    (h' : job.Derives l name') : name = name' := by
  obtain ⟨n, key, hn, -, hk, rfl⟩ := h
  obtain ⟨n', key', hn', -, hk', rfl⟩ := h'
  obtain rfl := Option.some.inj (hn.symm.trans hn')
  rw [hk.eq_keyAt hd, hk'.eq_keyAt hd]

def Arrives (job : Job) (l : Location) (key : String) : Prop :=
  job.Live l ∧ (job.options.policy = .fail → job.Keyed l key)

end Job

namespace Synthesis

variable {job : Job}

structure Given (job : Job) (s : Synthesis) : Prop where
  policy : s.registry.policy = job.options.policy
  origin : ∀ d ∈ s.registry.declarations, d.origin = job.origin d.location
  derived : job.options.policy = .fail →
    ∀ d ∈ s.registry.declarations, job.Derives d.location d.name

theorem given_start : (start job.options).Given job := ⟨rfl, nofun, nofun⟩

theorem passes_arrives : Passes job (Given job) job.Arrives where
  items := by
    rintro l key n m ⟨hl, hkey⟩ hn hk
    exact ⟨.edge hl (.inl (.items hn hk)), fun hp => .items (hkey hp) hn hk⟩
  value := by
    rintro l key n m ⟨hl, hkey⟩ hn hk
    exact ⟨.edge hl (.inl (.value hn hk)), fun hp => .value (hkey hp) hn hk⟩
  target := by
    rintro l key n text target ⟨hl, hkey⟩ hn hk ht
    exact ⟨.edge hl (.inl (.reference hn hk ht)), fun hp => .reference (hkey hp) hn hk ht⟩
  slot := by
    rintro s l key n name registry events slot ⟨hl, hkey⟩ hg ho hm
    refine ⟨.edge hl (.inr (Job.part_slot ho.found ho.isStruct hm)), ?_⟩
    intro hp
    obtain rfl := Registry.declare_of_fail (hg.policy.trans hp) ho.unnamed ho.declared
    exact (hkey hp).slot ho.found ho.isStruct hm

theorem keeps_given : Keeps job job.Arrives (Given job) where
  toPasses := passes_arrives
  still := by
    intro s s' h hr _
    refine ⟨?_, ?_, ?_⟩ <;> rw [hr]
    · exact h.policy
    · exact h.origin
    · exact h.derived
  opened := by
    rintro s l key n name registry events hg hs ⟨hl, hkey⟩ ho
    refine ⟨?_, ?_, ?_⟩ <;> rw [ho.registry_opened]
    · exact hg.policy
    · intro d hd
      obtain hd | hd := List.mem_append.mp hd
      · exact hg.origin d hd
      · obtain rfl := List.mem_singleton.mp hd
        rfl
    · intro hp d hd
      obtain hd | hd := List.mem_append.mp hd
      · exact hg.derived hp d hd
      · obtain rfl := List.mem_singleton.mp hd
        have hbase := Registry.declare_of_fail (hg.policy.trans hp) ho.unnamed ho.declared
        exact ⟨n, key, ho.found, ho.isStruct, hkey hp, hbase⟩
  closed := by
    intro s s' k l key n name registry events fields hg _ _ _ _
    exact ⟨hg.policy, hg.origin, hg.derived⟩

end Synthesis

end SchemaStructs
