import SchemaStructs.Proofs.Roots

namespace SchemaStructs

namespace Synthesis

def DeclaresIn (P : Location → Prop) (s : Synthesis) : Prop :=
  ∀ d ∈ s.registry.declarations, P d.location

variable {job : Job} {s s' : Synthesis} {here : Location} {node : Node} {key : String}
  {P : Location → Prop} (hP : ∀ l m, P l → job.Edge l m → P m)

section
variable {w : Node → Location → String → Synth TypeDesc}
  (hw : ∀ node l key s r s', w node l key s = (r, s') → job.nodeAt? l = some node → P l →
    s.DeclaresIn P → s'.DeclaresIn P)

include hw in
theorem Slots.declaresIn {slots : List Slot} {fields : Dict String Field}
    {r : Except CompileError (Dict String Field)} (h : Slots w here slots fields s r s')
    (hn : ∀ slot ∈ slots, job.nodeAt? (here.join slot.segment) = some slot.node)
    (hp : ∀ slot ∈ slots, P (here.join slot.segment)) (hs : s.DeclaresIn P) : s'.DeclaresIn P := by
  refine h.keeps ?_ hs
  intro slot hm s r s' hw₁ hs₁
  exact hw _ _ _ _ _ _ hw₁ (hn slot hm) (hp slot hm) hs₁

theorem DeclaresIn.opened {base origin name : String} {qualifier : Option String}
    {registry : Registry} {events : List Event} (h : s.DeclaresIn P) (hh : P here)
    (hl : s.registry.nameOf? here = none)
    (hd : s.registry.declare here base origin qualifier = .ok (name, registry, events)) :
    (s.opened registry events).DeclaresIn P := by
  obtain ⟨rfl, -, -⟩ := Registry.declare_ok hl hd
  intro d hd
  obtain hd | hd := List.mem_append.mp hd
  · exact h d hd
  · obtain rfl := List.mem_singleton.mp hd
    exact hh

include hP hw in
theorem Step.declaresIn {r : Except CompileError TypeDesc} (h : Step job w node here key s r s')
    (hn : job.nodeAt? here = some node) (hh : P here) (hs : s.DeclaresIn P) :
    s'.DeclaresIn P := by
  have hslots : node.isStruct → ∀ name, ∀ slot ∈ node.slots name, P (here.join slot.segment) :=
    fun hst _ _ hm => hP _ _ hh (.inr (Job.part_slot hn hst hm))
  cases h with
  | shape | unresolved | reopened | unnamed | leaf | known | cached | forward | cycle => exact hs
  | items hk hw₁ =>
    exact hw _ _ _ _ _ _ hw₁ (Job.nodeAt?_items hn hk) (hP _ _ hh (.inl (.items hn hk))) hs
  | value hk hw₁ =>
    exact hw _ _ _ _ _ _ hw₁ (Job.nodeAt?_value hn hk) (hP _ _ hh (.inl (.value hn hk))) hs
  | entered hk ht hc he hw₁ | lost hk ht hc he hw₁ =>
    have hs' := hw _ _ _ _ _ _ hw₁ (Reference.nodeAt?_of_resolve ht)
      (hP _ _ hh (.inl (.reference hn hk ht))) hs
    exact hs'
  | built hst hname hd hf | unbuilt hst hname hd hf =>
    have hs' := hf.declaresIn hw (fun _ => Job.nodeAt?_slot hn) (hslots hst _)
      (hs.opened hh hname hd)
    exact hs'

end

include hP in
/-- A walk gives names to no nodes but those that its own node leads to. -/
theorem walk_declaresIn {n : Nat} {r : Except CompileError TypeDesc}
    (h : walk job n node here key s = (r, s')) (hn : job.nodeAt? here = some node) (hh : P here)
    (hs : s.DeclaresIn P) : s'.DeclaresIn P := by
  induction n generalizing node here key s r s' with
  | zero =>
    cases h
    exact hs
  | succ n ih => exact (walk_succ_iff.mp h).declaresIn hP (fun _ _ _ _ _ _ => ih) hn hh hs

theorem Roots.declaresIn_live {is : List Nat} {r : Except CompileError Unit}
    (h : Roots job is s r s') (hi : ∀ i ∈ is, i < job.documents.length)
    (hs : s.DeclaresIn job.Live) : s'.DeclaresIn job.Live := by
  refine h.keeps hi ?_ hs
  intro i node s r s' hlt hn hw hs₁
  exact walk_declaresIn (fun _ _ => .edge) hw hn (.root hlt) hs₁

theorem Settled.exists_name_iff {l : Location} (h : s.Settled job) (hl : s.DeclaresIn job.Live) :
    (∃ name, s.registry.nameOf? l = some name) ↔ job.Live l ∧ job.IsStructAt l := by
  constructor
  · rintro ⟨name, hname⟩
    obtain ⟨d, hd, rfl, -⟩ := Registry.exists_of_nameOf? hname
    exact ⟨hl d hd, h.sound.declared d hd⟩
  · rintro ⟨hlive, hst⟩
    obtain ⟨τ, hτ⟩ := h.exists_type hlive
    obtain ⟨name, hname, -⟩ := hτ.exists_name hst
    exact ⟨name, hname⟩

theorem Settled.mem_keys_iff {name : String} (h : s.Settled job) :
    name ∈ s.registry.structs.keys ↔ ∃ l, s.registry.nameOf? l = some name := by
  constructor
  · intro hk
    obtain ⟨d, hd, rfl⟩ := Registry.mem_names.mp (h.sound.consistent.structs name hk)
    exact ⟨d.location, h.sound.consistent.nameOf?_of_mem hd⟩
  · rintro ⟨l, hname⟩
    obtain ⟨struct, -, hs, -⟩ := h.exists_struct hname
    exact Dict.mem_keys_iff.mpr ⟨struct, hs⟩

theorem Settled.name_of_get? {name : String} {struct : Struct} (h : s.Settled job)
    (hs : s.registry.structs.get? name = some struct) : struct.name = name := by
  obtain ⟨l, hname⟩ := h.mem_keys_iff.mp (Dict.mem_keys_iff.mpr ⟨struct, hs⟩)
  obtain ⟨struct', -, hs', hn, -⟩ := h.exists_struct hname
  obtain rfl := Option.some.inj (hs.symm.trans hs')
  exact hn

end Synthesis

open Synthesis

/-- Live structs and stored structs are in bijection: `names` is defined on the live structs and on
no other nodes, tells them apart, and takes all the keys for values. Each struct is stored once. -/
theorem compile_names_bijective {job : Job} {m : StructMap}
    (h : (compile job.options job.documents).result = .ok m) :
    let names := (synthesizeRoots job (start job.options)).2.registry.nameOf?
    let stored := (compile job.options job.documents).log.filterMap Event.storedName?
    (∀ l, (∃ name, names l = some name) ↔ job.Live l ∧ job.IsStructAt l) ∧
      (∀ l l' name, names l = some name → names l' = some name → l = l') ∧
      (∀ name, name ∈ m.keys ↔ ∃ l, names l = some name) ∧
      (∀ name struct, m.get? name = some struct → struct.name = name) ∧
      stored.Nodup ∧ stored.Perm m.keys := by
  obtain ⟨-, s, hroots, rfl, definitions, hlog⟩ := compile_ok h
  have hs : s.Settled job := settled_of_roots hroots
  have hl : s.DeclaresIn job.Live := hroots.declaresIn_live (fun i => List.mem_range.mp) nofun
  have hrun : (synthesizeRoots job (start job.options)).2 = s := by
    rw [synthesizeRoots_iff.mpr hroots]
  have hstored : ((compile job.options job.documents).log.filterMap Event.storedName?).Perm
      s.registry.structs.keys := by
    rw [hlog]
    simpa [List.filterMap_cons, Event.storedName?] using hs.sound.reported
  intro names stored
  simp only [names, stored, hrun]
  exact ⟨fun l => hs.exists_name_iff hl, fun _ _ _ => hs.sound.consistent.location_unique,
    fun _ => hs.mem_keys_iff, fun _ _ => hs.name_of_get?,
    hstored.nodup_iff.mpr (Dict.nodup_keys _), hstored⟩

theorem samples_store_each_once :
    ((compile samples.options samples.documents).log.filterMap Event.storedName?).Perm
      ["Customer", "Line", "Order"] := by
  obtain ⟨m, h, hk⟩ := exists_samples_ok
  rw [← hk]
  exact (compile_names_bijective h).2.2.2.2.2

end SchemaStructs
