import SchemaStructs.Proofs.Growth

namespace SchemaStructs

structure Job.Made (job : Job) (names : Location → Option String) (l : Location) (n : Node)
    (struct : Struct) : Prop where
  node : job.nodeAt? l = some n
  origin : struct.origin = job.origin l
  description : struct.description = n.head.description
  fields : ∃ fs, struct.fields.values.Perm fs ∧
    List.Forall₂ (job.Fills names l) (n.slots struct.name) fs

theorem Job.Made.mono {job : Job} {names names' : Location → Option String} {l : Location}
    {n : Node} {struct : Struct} (hle : ∀ l name, names l = some name → names' l = some name)
    (h : job.Made names l n struct) : job.Made names' l n struct := by
  obtain ⟨fs, hp, hf⟩ := h.fields
  exact ⟨h.node, h.origin, h.description, fs, hp, hf.imp fun _ _ => Fills.mono hle⟩

theorem Slot.exists_add_perm (slot : Slot) (fields : Dict String Field) (τ : TypeDesc) :
    ∃ f : Field, (slot.add fields τ).values.Perm (f :: fields.values) ∧ f.entry = slot.entry τ :=
  ⟨_, Dict.values_insert_perm (Naming.unique_not_mem _ _) _, rfl⟩

namespace Synthesis

structure Sound (job : Job) (s : Synthesis) : Prop where
  consistent : s.registry.Consistent
  declared : ∀ d ∈ s.registry.declarations, job.IsStructAt d.location
  cached : ∀ e ∈ s.resolved, job.HasType s.registry.nameOf? e.1 e.2
  defined : ∀ d ∈ s.registry.declarations, ∀ struct, s.registry.structs.get? d.name = some struct →
    struct.name = d.name ∧ ∃ n, job.Made s.registry.nameOf? d.location n struct
  reported : (s.log.filterMap Event.storedName?).Perm s.registry.structs.keys

variable {job : Job} {s s₁ s' : Synthesis} {l here : Location} {node : Node} {key : String}

theorem sound_start (options : Options) : (start options).Sound job where
  consistent := ⟨List.nodup_nil, List.nodup_nil, nofun⟩
  declared := nofun
  cached := nofun
  defined := nofun
  reported := .refl _

theorem Sound.hasType_of_resolvedType? {τ : TypeDesc} (h : s.Sound job)
    (hc : s.resolvedType? l = some τ) : job.HasType s.registry.nameOf? l τ := by
  obtain ⟨e, he, rfl⟩ := Option.map_eq_some_iff.mp hc
  obtain rfl : e.1 = l := by simpa using List.find?_some he
  exact h.cached e (List.mem_of_find?_eq_some he)

theorem Sound.hasType_of_nameOf? {name : String} (h : s.Sound job)
    (hname : s.registry.nameOf? l = some name) :
    job.HasType s.registry.nameOf? l (.struct name) := by
  obtain ⟨d, hd, rfl, rfl⟩ := Registry.exists_of_nameOf? hname
  obtain ⟨n, hn, hs⟩ := h.declared d hd
  exact .struct hn hs hname

theorem nameOf?_of_forward {recursive : Bool} {name : String}
    (h : s.reentry recursive l = .forward name) : s.registry.nameOf? l = some name := by
  unfold reentry at h
  split at h
  next => cases h
  next =>
  split at h
  next hname =>
    split at h <;> cases h
    exact hname
  next => split at h <;> cases h

theorem Sound.marked (h : s.Sound job) (text : String) (target : Location) :
    (s.marked job text here target).Sound job where
  consistent := h.consistent
  declared := h.declared
  cached := h.cached
  defined := h.defined
  reported := by
    simpa [Synthesis.marked, note, List.filterMap_cons, Event.storedName?] using h.reported

theorem Sound.enter (h : s.Sound job) (target : Location) : (s.enter target).Sound job :=
  ⟨h.consistent, h.declared, h.cached, h.defined, h.reported⟩

theorem Sound.leave (h : s.Sound job) : s.leave.Sound job :=
  ⟨h.consistent, h.declared, h.cached, h.defined, h.reported⟩

theorem Sound.remember {τ : TypeDesc} (h : s.Sound job)
    (hτ : job.HasType s.registry.nameOf? l τ) : (s.remember l τ).Sound job := by
  refine ⟨h.consistent, h.declared, ?_, h.defined, h.reported⟩
  intro e he
  obtain rfl | he := List.mem_cons.mp he
  · exact hτ
  · exact h.cached e he

theorem Sound.opened {base origin name : String} {qualifier : Option String} {registry : Registry}
    {events : List Event} (h : s.Sound job) (hst : job.IsStructAt l)
    (hl : s.registry.nameOf? l = none)
    (hd : s.registry.declare l base origin qualifier = .ok (name, registry, events)) :
    (s.opened registry events).Sound job := by
  have hle : ∀ l name, s.registry.nameOf? l = some name → registry.nameOf? l = some name :=
    fun _ _ => (grown_opened hl hd).registry.nameOf?
  obtain ⟨rfl, hfree, hev⟩ := Registry.declare_ok hl hd
  refine ⟨h.consistent.record hl hfree, ?_, fun e he => (h.cached e he).mono hle, ?_, ?_⟩
  · intro d hd
    obtain hd | hd := List.mem_append.mp hd
    · exact h.declared d hd
    · obtain rfl := List.mem_singleton.mp hd
      exact hst
  · intro d hd struct hs
    obtain hd | hd := List.mem_append.mp hd
    · obtain ⟨hname, n, hm⟩ := h.defined d hd struct hs
      exact ⟨hname, n, hm.mono hle⟩
    · obtain rfl := List.mem_singleton.mp hd
      exact absurd (h.consistent.structs _ (Dict.mem_keys_iff.mpr ⟨struct, hs⟩)) hfree
  · simpa [Synthesis.opened, note, hev] using! h.reported

theorem Sound.closed {d : Declaration} {n : Node} {struct : Struct} (h : s.Sound job)
    (hd : d ∈ s.registry.declarations) (hname : struct.name = d.name)
    (hopen : s.registry.structs.get? d.name = none)
    (hm : job.Made s.registry.nameOf? d.location n struct) : (s.closed struct).Sound job := by
  have hmem : struct.name ∈ s.registry.names := Registry.mem_names.mpr ⟨d, hd, hname.symm⟩
  refine ⟨h.consistent.define hmem, h.declared, h.cached, ?_, ?_⟩
  · intro d' hd' struct' hs
    by_cases he : d'.name = struct.name
    · obtain rfl : d' = d :=
        List.inj_on_of_nodup_map h.consistent.names hd' hd (he.trans hname)
      obtain rfl : struct = struct' := by
        simpa [Synthesis.closed, Registry.define, he] using hs
      exact ⟨hname, n, hm⟩
    · have hs : s.registry.structs.get? d'.name = some struct' := by
        rw [← hs]
        exact (Dict.get?_insert_of_ne _ he _).symm
      exact h.defined d' hd' struct' hs
  · have hfree : struct.name ∉ s.registry.structs.keys := by
      rw [hname]
      exact Dict.get?_eq_none_iff.mp hopen
    have hp := (h.reported.append_right [struct.name]).trans
      (List.perm_append_singleton _ _)
    simpa [Synthesis.closed, note, Registry.define, Event.storedName?] using!
      hp.trans (Dict.keys_insert_perm hfree struct).symm

def Faithful (job : Job) (w : Node → Location → String → Synth TypeDesc) : Prop :=
  ∀ node l key s r s', w node l key s = (r, s') → job.nodeAt? l = some node → s.Sound job →
    s'.Sound job ∧ ∀ τ, r = .ok τ → job.HasType s'.registry.nameOf? l τ

section
variable {w : Node → Location → String → Synth TypeDesc}
  (ha : ∀ node l key s r s', w node l key s = (r, s') → s.After r s') (hw : Faithful job w)

include ha hw

theorem Slots.sound {slots : List Slot} {fields : Dict String Field}
    {r : Except CompileError (Dict String Field)} (h : Slots w here slots fields s r s')
    (hn : ∀ slot ∈ slots, job.nodeAt? (here.join slot.segment) = some slot.node)
    (hs : s.Sound job) :
    s'.Sound job ∧ ∀ fields', r = .ok fields' →
      ∃ fs, fields'.values.Perm (fs ++ fields.values) ∧
        List.Forall₂ (job.Fills s'.registry.nameOf? here) slots fs := by
  induction h with
  | nil =>
    refine ⟨hs, ?_⟩
    intro fields' h
    cases h
    exact ⟨[], .refl _, .nil⟩
  | @cons slot rest fields τ s s₁ s' r hw₁ h ih =>
    obtain ⟨hs₁, hτ⟩ := hw _ _ _ _ _ _ hw₁ (hn slot List.mem_cons_self) hs
    obtain ⟨hs', hf⟩ := ih (fun slot hm => hn slot (List.mem_cons_of_mem _ hm)) hs₁
    refine ⟨hs', ?_⟩
    intro fields' hr
    obtain ⟨fs, hp, hfs⟩ := hf fields' hr
    obtain ⟨f, hadd, hentry⟩ := slot.exists_add_perm fields τ
    have hle : ∀ l name, s₁.registry.nameOf? l = some name → s'.registry.nameOf? l = some name :=
      fun _ _ => (h.after ha).grown.registry.nameOf?
    refine ⟨f :: fs, ?_, .cons ⟨τ, (hτ τ rfl).mono hle, hentry⟩ hfs⟩
    exact (hp.trans (hadd.append_left fs)).trans List.perm_middle
  | fail hw₁ => exact ⟨(hw _ _ _ _ _ _ hw₁ (hn _ List.mem_cons_self) hs).1, nofun⟩

theorem Slots.exists_fail {slots : List Slot} {fields : Dict String Field} {e : CompileError}
    (h : Slots w here slots fields s (.error e) s')
    (hn : ∀ slot ∈ slots, job.nodeAt? (here.join slot.segment) = some slot.node)
    (hs : s.Sound job) :
    ∃ slot ∈ slots, ∃ s₁, s.Finished s₁ ∧ s₁.Sound job ∧
      w slot.node (here.join slot.segment) slot.key s₁ = (.error e, s') := by
  have hkeep : ∀ slot ∈ slots, ∀ s₁ τ s₂,
      w slot.node (here.join slot.segment) slot.key s₁ = (.ok τ, s₂) →
      s.Finished s₁ ∧ s₁.Sound job → s.Finished s₂ ∧ s₂.Sound job := by
    rintro slot hm s₁ τ s₂ hw₁ ⟨hf, hs₁⟩
    have hf₁ : s₁.Finished s₂ := ha _ _ _ _ _ _ hw₁
    exact ⟨hf.trans hf₁, (hw _ _ _ _ _ _ hw₁ (hn slot hm) hs₁).1⟩
  obtain ⟨slot, hm, s₁, ⟨hf, hs₁⟩, hfail⟩ := h.exists_error hkeep ⟨.refl _, hs⟩
  exact ⟨slot, hm, s₁, hf, hs₁, hfail⟩

/-- The fields of a struct are made while it is open: its name is given, and no other walk may
store a struct under it. -/
theorem sound_built {base name : String} {qualifier : Option String} {registry : Registry}
    {events : List Event} {fields : Dict String Field} (hn : job.nodeAt? here = some node)
    (hst : node.isStruct) (hs : s.Sound job) (hl : s.registry.nameOf? here = none)
    (hd : s.registry.declare here base (job.origin here) qualifier = .ok (name, registry, events))
    (hf : Slots w here (node.slots name) ∅ (s.opened registry events) (.ok fields) s') :
    (s'.closed ⟨name, job.origin here, node.head.description, fields⟩).Sound job ∧
      (s'.closed ⟨name, job.origin here, node.head.description, fields⟩).registry.nameOf? here =
        some name := by
  have hopened := hs.opened ⟨node, hn, hst⟩ hl hd
  obtain ⟨hs', hfs⟩ := hf.sound ha hw (fun _ => Job.nodeAt?_slot hn) hopened
  obtain ⟨fs, hp, hfs⟩ := hfs fields rfl
  have hg := (hf.after ha).grown
  obtain ⟨rfl, hfree, -⟩ := Registry.declare_ok hl hd
  let d : Declaration := ⟨here, name, job.origin here⟩
  have hmem : d ∈ s'.registry.declarations :=
    hg.registry.declarations.subset (List.mem_append_right _ (List.mem_singleton_self d))
  have hopen : s'.registry.structs.get? name = none := by
    rw [hg.registry.structs name (Registry.mem_names.mpr ⟨d, by simp [Synthesis.opened,
      Registry.record, d], rfl⟩)]
    exact Dict.get?_eq_none_iff.mpr fun hk => hfree (hs.consistent.structs name hk)
  refine ⟨hs'.closed hmem rfl hopen ⟨hn, rfl, rfl, fs, ?_, hfs⟩, hs'.consistent.nameOf?_of_mem hmem⟩
  simpa using hp

theorem Step.sound {r : Except CompileError TypeDesc} (h : Step job w node here key s r s')
    (hn : job.nodeAt? here = some node) (hs : s.Sound job) :
    s'.Sound job ∧ ∀ τ, r = .ok τ → job.HasType s'.registry.nameOf? here τ := by
  cases h with
  | shape | unresolved | reopened | unnamed => exact ⟨hs, nofun⟩
  | leaf ht =>
    refine ⟨hs, ?_⟩
    rintro _ ⟨⟩
    exact .leaf hn ht
  | items hk hw₁ =>
    obtain ⟨hs', hτ⟩ := hw _ _ _ _ _ _ hw₁ (Job.nodeAt?_items hn hk) hs
    refine ⟨hs', ?_⟩
    intro τ hr
    obtain ⟨τ', hr', rfl⟩ := Synth.map_eq_ok hr
    exact .items hn hk (hτ τ' hr')
  | value hk hw₁ =>
    obtain ⟨hs', hτ⟩ := hw _ _ _ _ _ _ hw₁ (Job.nodeAt?_value hn hk) hs
    refine ⟨hs', ?_⟩
    intro τ hr
    obtain ⟨τ', hr', rfl⟩ := Synth.map_eq_ok hr
    exact .value hn hk (hτ τ' hr')
  | cached hk ht hc =>
    refine ⟨hs.marked _ _, ?_⟩
    rintro _ ⟨⟩
    exact .reference hn hk ht (hs.hasType_of_resolvedType? hc)
  | forward hk ht hc he =>
    refine ⟨hs.marked _ _, ?_⟩
    rintro _ ⟨⟩
    exact .reference hn hk ht (hs.hasType_of_nameOf? (nameOf?_of_forward he))
  | cycle => exact ⟨hs.marked _ _, nofun⟩
  | entered hk ht hc he hw₁ =>
    obtain ⟨hs', hτ⟩ := hw _ _ _ _ _ _ hw₁ (Reference.nodeAt?_of_resolve ht)
      ((hs.marked _ _).enter _)
    refine ⟨hs'.leave.remember (hτ _ rfl), ?_⟩
    rintro _ ⟨⟩
    exact .reference hn hk ht (hτ _ rfl)
  | lost hk ht hc he hw₁ =>
    obtain ⟨hs', -⟩ := hw _ _ _ _ _ _ hw₁ (Reference.nodeAt?_of_resolve ht)
      ((hs.marked _ _).enter _)
    exact ⟨hs'.leave, nofun⟩
  | known hst hname =>
    refine ⟨hs, ?_⟩
    rintro _ ⟨⟩
    exact .struct hn hst hname
  | built hst hname hd hf =>
    obtain ⟨hs', hname'⟩ := sound_built ha hw hn hst hs hname hd hf
    refine ⟨hs', ?_⟩
    rintro _ ⟨⟩
    exact .struct hn hst hname'
  | unbuilt hst hname hd hf =>
    have ho := hs.opened ⟨node, hn, hst⟩ hname hd
    exact ⟨(hf.sound ha hw (fun _ => Job.nodeAt?_slot hn) ho).1, nofun⟩

end

theorem walk_faithful (n : Nat) : Faithful job (walk job n) := by
  induction n with
  | zero =>
    intro node l key s r s' h hn hs
    cases h
    exact ⟨hs, nofun⟩
  | succ n ih =>
    intro node l key s r s' h hn hs
    exact (walk_succ_iff.mp h).sound (fun _ _ _ _ _ _ => walk_after) ih hn hs

end Synthesis

end SchemaStructs
