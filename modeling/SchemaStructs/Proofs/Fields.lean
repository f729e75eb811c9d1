import SchemaStructs.Proofs.Renumbering

namespace SchemaStructs

namespace Job

/-- The fields that slots add to others, filled one after the other with the types of their nodes.
Each field has the name that the ones before it leave free. -/
inductive Adds (job : Job) (names : Location → Option String) (l : Location) :
    List Slot → Dict String Field → Dict String Field → Prop
  | nil {fields : Dict String Field} : Adds job names l [] fields fields
  | cons {slot : Slot} {rest : List Slot} {fields fields' : Dict String Field} {τ : TypeDesc}
    (ht : job.HasType names (l.join slot.segment) τ)
    (h : Adds job names l rest (slot.add fields τ) fields') :
    Adds job names l (slot :: rest) fields fields'

structure Yields (job : Job) (names : Location → Option String) (l : Location) (n : Node)
    (struct : Struct) : Prop where
  node : job.nodeAt? l = some n
  origin : struct.origin = job.origin l
  description : struct.description = n.head.description
  fields : job.Adds names l (n.slots struct.name) ∅ struct.fields

variable {job job' : Job} {names names' : Location → Option String} {l : Location}
  {slots : List Slot} {fields fields₁ fields₂ : Dict String Field} {n n' : Node}
  {struct struct' : Struct}

theorem Adds.mono (hle : ∀ l name, names l = some name → names' l = some name)
    (h : job.Adds names l slots fields fields₁) : job.Adds names' l slots fields fields₁ := by
  induction h with
  | nil => exact .nil
  | cons ht _ ih => exact .cons (ht.mono hle) ih

theorem Adds.unique (h : job.Adds names l slots fields fields₁)
    (h' : job.Adds names l slots fields fields₂) : fields₁ = fields₂ := by
  induction h with
  | nil =>
    cases h'
    rfl
  | cons ht _ ih =>
    cases h' with
    | cons ht' h' =>
      obtain rfl := ht.unique ht'
      exact ih h'

theorem Renumbers.adds {σ : Nat → Nat} (hr : Renumbers σ job job')
    (hnames : ∀ l name, names l = some name → names' (l.renumber σ) = some name)
    (h : job.Adds names l slots fields fields₁) :
    job'.Adds names' (l.renumber σ) slots fields fields₁ := by
  induction h with
  | nil => exact .nil
  | cons ht _ ih => exact .cons (hr.hasType hnames ht) ih

theorem Yields.mono (hle : ∀ l name, names l = some name → names' l = some name)
    (h : job.Yields names l n struct) : job.Yields names' l n struct :=
  ⟨h.node, h.origin, h.description, h.fields.mono hle⟩

theorem Yields.unique (h : job.Yields names l n struct) (h' : job.Yields names l n' struct')
    (hname : struct.name = struct'.name) : struct = struct' := by
  obtain rfl := Option.some.inj (h.node.symm.trans h'.node)
  have horigin : struct.origin = struct'.origin := h.origin.trans h'.origin.symm
  have hdescription : struct.description = struct'.description :=
    h.description.trans h'.description.symm
  have hadds := h.fields
  rw [hname] at hadds
  have hfields : struct.fields = struct'.fields := hadds.unique h'.fields
  cases struct
  cases struct'
  simp_all

theorem Renumbers.yields {σ : Nat → Nat} (hr : Renumbers σ job job')
    (hnames : ∀ l name, names l = some name → names' (l.renumber σ) = some name)
    (h : job.Yields names l n struct) : job'.Yields names' (l.renumber σ) n struct :=
  ⟨(hr.nodeAt? l).trans h.node, h.origin.trans (hr.origin l).symm, h.description,
    hr.adds hnames h.fields⟩

end Job

namespace Synthesis

variable {job : Job} {s s' : Synthesis} {here : Location}

def Filled (job : Job) (s : Synthesis) : Prop :=
  ∀ d ∈ s.registry.declarations, ∀ struct, s.registry.structs.get? d.name = some struct →
    struct.name = d.name ∧ ∃ n, job.Yields s.registry.nameOf? d.location n struct

theorem Slots.adds {n : Nat} {slots : List Slot} {fields fields' : Dict String Field}
    (h : Slots (walk job n) here slots fields s (.ok fields') s')
    (hn : ∀ slot ∈ slots, job.nodeAt? (here.join slot.segment) = some slot.node)
    (hs : s.Sound job) : job.Adds s'.registry.nameOf? here slots fields fields' := by
  generalize hr : Except.ok fields' = r at h
  induction h with
  | nil =>
    cases hr
    exact .nil
  | fail => cases hr
  | @cons slot rest fields τ s s₁ s' r hw h ih =>
    obtain ⟨hs₁, hτ⟩ := walk_faithful n _ _ _ _ _ _ hw (hn slot List.mem_cons_self) hs
    have hg : s₁.Grown s' := (h.after fun _ _ _ _ _ _ => walk_after).grown
    refine .cons ((hτ τ rfl).mono fun _ _ => hg.registry.nameOf?) ?_
    exact ih (fun slot hm => hn slot (List.mem_cons_of_mem _ hm)) hs₁ hr

theorem keeps_filled : Keeps job (fun _ _ => True) (Filled job) where
  toPasses := passes_true
  still := by
    intro s s' h hr _
    unfold Filled
    rw [hr]
    exact h
  opened := by
    intro s l key n name registry events h hs _ ho
    have hg : s.registry.Grows (s.registry.record ⟨l, name, job.origin l⟩) := Registry.grows_record
    unfold Filled
    rw [ho.registry_opened]
    intro d hd struct hstruct
    obtain hd | hd := List.mem_append.mp hd
    · obtain ⟨hname, n, hyields⟩ := h d hd struct hstruct
      exact ⟨hname, n, hyields.mono fun _ _ => hg.nameOf?⟩
    · obtain rfl := List.mem_singleton.mp hd
      have hkey : name ∈ s.registry.structs.keys := Dict.mem_keys_iff.mpr ⟨struct, hstruct⟩
      exact absurd (hs.consistent.structs name hkey) ho.not_mem
  closed := by
    intro s s' k l key n name registry events fields h hs hs' ho hf d hd
      struct hstruct
    by_cases hname : d.name = name
    · -- Of the structs with this name there is one, the one that is closed.
      obtain rfl : d = ⟨l, name, job.origin l⟩ :=
        List.inj_on_of_nodup_map hs'.consistent.names hd (ho.mem_declarations hf) hname
      have hadds : job.Adds s'.registry.nameOf? l (n.slots name) ∅ fields :=
        hf.adds (fun _ => Job.nodeAt?_slot ho.found) (ho.sound hs)
      obtain rfl : ⟨name, job.origin l, n.head.description, fields⟩ = struct := by
        simpa [Synthesis.closed, Registry.define] using hstruct
      exact ⟨rfl, n, ho.found, rfl, rfl, hadds⟩
    · have hold : s'.registry.structs.get? d.name = some struct := by
        rw [← hstruct]
        exact (Dict.get?_insert_of_ne _ hname _).symm
      exact h d hd struct hold

end Synthesis

end SchemaStructs
