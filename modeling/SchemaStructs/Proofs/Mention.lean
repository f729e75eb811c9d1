import Mathlib.Logic.Relation
import SchemaStructs.Proofs.Soundness

namespace SchemaStructs

def TypeDesc.struct? : TypeDesc → Option String
  | struct name => some name
  | slice τ | map τ => τ.struct?
  | primitive _ | any => none

def StructMap.Mentions (m : StructMap) (a b : String) : Prop :=
  ∃ struct, m.get? a = some struct ∧ ∃ f ∈ struct.fields.values, f.type.struct? = some b

theorem Node.struct?_wrap {n : Node} {name : String} {slot : Slot} (hm : slot ∈ n.slots name)
    (τ : TypeDesc) : (slot.wrap τ).struct? = τ.struct? := by
  obtain hm | hm := List.mem_append.mp hm
  · obtain ⟨p, -, rfl⟩ := List.mem_map.mp hm
    rfl
  · obtain ⟨e, -, rfl⟩ := List.mem_map.mp hm
    rfl

theorem Node.struct?_of_leafType? {n : Node} {τ : TypeDesc} (h : n.leafType? = some τ) :
    τ.struct? = none := by
  unfold leafType? at h
  split at h <;> cases h <;> rfl

theorem Registry.name_mem_of_nameOf? {r : Registry} {l : Location} {name : String}
    (h : r.nameOf? l = some name) : name ∈ r.names := by
  obtain ⟨d, hd, -, hname⟩ := exists_of_nameOf? h
  exact mem_names.mpr ⟨d, hd, hname⟩

namespace Job

variable {job : Job} {names : Location → Option String} {l m : Location} {n : Node} {τ : TypeDesc}
  {struct : Struct} {slot : Slot} {f : Field}

theorem HasType.link (h : job.HasType names l τ) (hl : job.Link l m) :
    ∃ τ', job.HasType names m τ' ∧ τ'.struct? = τ.struct? := by
  cases h with
  | leaf hn ht => cases hl <;> simp_all [Node.leafType?]
  | reference hn hk ht h =>
    obtain rfl := hl.unique (.reference hn hk ht)
    exact ⟨_, h, rfl⟩
  | items hn hk h =>
    obtain rfl := hl.unique (.items hn hk)
    exact ⟨_, h, rfl⟩
  | value hn hk h =>
    obtain rfl := hl.unique (.value hn hk)
    exact ⟨_, h, rfl⟩
  | struct hn hs => exact absurd ⟨_, hn, hs⟩ hl.not_isStructAt

theorem HasType.exists_struct {name : String} (h : job.HasType names l τ)
    (ht : τ.struct? = some name) : ∃ m, names m = some name := by
  induction h with
  | leaf hn hleaf => simp [Node.struct?_of_leafType? hleaf] at ht
  | reference _ _ _ _ ih => exact ih ht
  | items _ _ _ ih => exact ih ht
  | value _ _ _ ih => exact ih ht
  | struct hn hs hname =>
    cases ht
    exact ⟨_, hname⟩

theorem exists_slot_of_fills {slots : List Slot} {fs : List Field}
    (h : List.Forall₂ (job.Fills names l) slots fs) (hm : f ∈ fs) :
    ∃ slot ∈ slots, job.Fills names l slot f := by
  induction h with
  | nil => cases hm
  | cons hf _ ih =>
    obtain rfl | hm := List.mem_cons.mp hm
    · exact ⟨_, List.mem_cons_self, hf⟩
    · obtain ⟨slot, hmem, hfill⟩ := ih hm
      exact ⟨slot, List.mem_cons_of_mem _ hmem, hfill⟩

theorem Fills.exists_type (h : job.Fills names l slot f) {name : String}
    (hm : slot ∈ n.slots name) :
    ∃ τ, job.HasType names (l.join slot.segment) τ ∧ f.type.struct? = τ.struct? := by
  obtain ⟨τ, hτ, he⟩ := h
  have ht : f.type = slot.wrap τ := congrArg Entry.type he
  refine ⟨τ, hτ, ?_⟩
  rw [ht]
  exact Node.struct?_wrap hm τ

theorem Made.exists_struct {name : String} (h : job.Made names l n struct)
    (hf : f ∈ struct.fields.values) (ht : f.type.struct? = some name) :
    ∃ m, names m = some name := by
  obtain ⟨fs, hp, hfs⟩ := h.fields
  obtain ⟨slot, hm, hfill⟩ := exists_slot_of_fills hfs (hp.mem_iff.mp hf)
  obtain ⟨τ, hτ, he⟩ := hfill.exists_type hm
  exact hτ.exists_struct (he ▸ ht)

end Job

namespace Synthesis

structure Complete (job : Job) (s : Synthesis) : Prop where
  sound : s.Sound job
  defined : ∀ d ∈ s.registry.declarations,
    ∃ struct, s.registry.structs.get? d.name = some struct

variable {job : Job} {s : Synthesis} {l m : Location} {τ : TypeDesc} {a b name : String}

theorem Sound.name_mem_of_mentions (h : s.Sound job) (hm : s.registry.structs.Mentions a b) :
    b ∈ s.registry.names := by
  obtain ⟨struct, hs, f, hf, ht⟩ := hm
  have ha : a ∈ s.registry.names := h.consistent.structs a (Dict.mem_keys_iff.mpr ⟨struct, hs⟩)
  obtain ⟨d, hd, rfl⟩ := Registry.mem_names.mp ha
  obtain ⟨-, n, hmade⟩ := h.defined d hd struct hs
  obtain ⟨l, hl⟩ := hmade.exists_struct hf ht
  exact Registry.name_mem_of_nameOf? hl

namespace Complete

theorem exists_struct (h : s.Complete job) (hname : s.registry.nameOf? l = some name) :
    ∃ struct n, s.registry.structs.get? name = some struct ∧ struct.name = name ∧
      job.Made s.registry.nameOf? l n struct := by
  obtain ⟨d, hd, rfl, rfl⟩ := Registry.exists_of_nameOf? hname
  obtain ⟨struct, hs⟩ := h.defined d hd
  obtain ⟨hn, n, hm⟩ := h.sound.defined d hd struct hs
  exact ⟨struct, n, hs, hn, hm⟩

theorem mem_keys (h : s.Complete job) (hname : name ∈ s.registry.names) :
    name ∈ s.registry.structs.keys := by
  obtain ⟨d, hd, rfl⟩ := Registry.mem_names.mp hname
  exact Dict.mem_keys_iff.mpr (h.defined d hd)

theorem exists_type_of_part (h : s.Complete job) (hname : s.registry.nameOf? l = some a)
    (hp : job.Part l m) :
    ∃ τ, job.HasType s.registry.nameOf? m τ ∧
      ∀ b, τ.struct? = some b → s.registry.structs.Mentions a b := by
  obtain ⟨struct, n, hs, rfl, hmade⟩ := h.exists_struct hname
  obtain ⟨slot, hm, rfl⟩ := hp.exists_slot hmade.node struct.name
  obtain ⟨fs, hperm, hfs⟩ := hmade.fields
  obtain ⟨f, hf, hfill⟩ := Job.exists_field_of_fills hfs hm
  obtain ⟨τ, hτ, he⟩ := hfill.exists_type hm
  refine ⟨τ, hτ, ?_⟩
  intro b hb
  exact ⟨struct, hs, f, hperm.mem_iff.mpr hf, he.trans hb⟩

/-- Edges from a node lead only to what its type mentions, directly or through fields. -/
theorem exists_type_of_edges (h : s.Complete job) (hτ : job.HasType s.registry.nameOf? l τ)
    (hp : Relation.ReflTransGen job.Edge l m) :
    ∃ τ', job.HasType s.registry.nameOf? m τ' ∧ ∀ b, τ'.struct? = some b →
      ∃ a, τ.struct? = some a ∧ Relation.ReflTransGen s.registry.structs.Mentions a b := by
  induction hp with
  | refl => exact ⟨τ, hτ, fun b hb => ⟨b, hb, .refl⟩⟩
  | @tail m m' _ he ih =>
    obtain ⟨τ', hτ', hreach⟩ := ih
    obtain he | he := he
    · obtain ⟨τ'', hτ'', hsame⟩ := hτ'.link he
      refine ⟨τ'', hτ'', ?_⟩
      intro b hb
      exact hreach b (hsame ▸ hb)
    · obtain ⟨c, hc, rfl⟩ := hτ'.exists_name he.isStructAt
      obtain ⟨τ'', hτ'', hmention⟩ := h.exists_type_of_part hc he
      obtain ⟨a, ha, hac⟩ := hreach c rfl
      refine ⟨τ'', hτ'', ?_⟩
      intro b hb
      exact ⟨a, ha, hac.tail (hmention b hb)⟩

theorem reaches_struct (h : s.Complete job) (hτ : job.HasType s.registry.nameOf? l τ)
    (hp : Relation.ReflTransGen job.Edge l m) (hb : s.registry.nameOf? m = some b) :
    ∃ a, τ.struct? = some a ∧ Relation.ReflTransGen s.registry.structs.Mentions a b := by
  obtain ⟨τ', hτ', hreach⟩ := h.exists_type_of_edges hτ hp
  obtain rfl := hτ'.unique (h.sound.hasType_of_nameOf? hb)
  exact hreach b rfl

/-- Edges that lead from a struct back to it make the struct mention itself. -/
theorem mentions_of_cycle (h : s.Complete job) (ha : s.registry.nameOf? l = some a)
    (hc : Relation.TransGen job.Edge l l) :
    Relation.TransGen s.registry.structs.Mentions a a := by
  obtain ⟨d, hd, rfl, -⟩ := Registry.exists_of_nameOf? ha
  obtain ⟨m, he, hrest⟩ := Relation.TransGen.head'_iff.mp hc
  obtain he | he := he
  · exact absurd (h.sound.declared d hd) he.not_isStructAt
  · obtain ⟨τ, hτ, hmention⟩ := h.exists_type_of_part ha he
    obtain ⟨b, hb, hreach⟩ := h.reaches_struct hτ hrest ha
    exact .head' (hmention b hb) hreach

end Complete

end Synthesis

end SchemaStructs
