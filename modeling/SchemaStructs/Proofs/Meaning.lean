import Mathlib.Tactic.Choose
import SchemaStructs.Proofs.Roots

namespace SchemaStructs

open Synthesis

variable {job : Job}

theorem Synthesis.Settled.describes {s : Synthesis} {types : Location → TypeDesc} {l : Location}
    {n : Node} (h : s.Settled job)
    (ht : ∀ l τ, job.Live l → (job.HasType s.registry.nameOf? l τ ↔ types l = τ))
    (hl : job.Live l) (hn : job.nodeAt? l = some n) (hs : n.isStruct) :
    ∃ name struct, s.registry.nameOf? l = some name ∧
      s.registry.structs.get? name = some struct ∧ job.Describes types l n struct := by
  obtain ⟨name, hname, -⟩ := ((ht l _ hl).mpr rfl).exists_name ⟨n, hn, hs⟩
  obtain ⟨struct, n', hstruct, -, hm⟩ := h.exists_struct hname
  obtain rfl : n' = n := Option.some.inj (hm.node.symm.trans hn)
  obtain ⟨fs, hp, hfs⟩ := hm.fields
  refine ⟨name, struct, hname, hstruct, hm.origin, hm.description, ?_⟩
  rw [Node.entries_eq_map_slots n' types l struct.name, ← Job.map_entry_of_fills hfs]
  · exact hp.map _
  · intro slot hslot τ hτ
    exact (ht _ τ (.edge hl (.inr (Job.part_slot hn hs hslot)))).mp hτ

/-- What a compilation means. Live nodes have one type each, which no order of walking and nothing
made before has a part in; and under the name of every live struct stands the struct that its node
describes with these types. -/
theorem compile_describes {m : StructMap}
    (h : (compile job.options job.documents).result = .ok m) :
    ∃ (names : Location → Option String) (types : Location → TypeDesc),
      (∀ l l' name, names l = some name → names l' = some name → l = l') ∧
      (∀ l τ, job.Live l → (job.HasType names l τ ↔ types l = τ)) ∧
      ∀ l n, job.Live l → job.nodeAt? l = some n → n.isStruct →
        ∃ name struct, names l = some name ∧ m.get? name = some struct ∧
          job.Describes types l n struct := by
  obtain ⟨-, s, hroots, rfl, -⟩ := compile_ok h
  have hs : s.Settled job := settled_of_roots hroots
  have hex : ∀ l, ∃ τ, job.Live l → job.HasType s.registry.nameOf? l τ := by
    intro l
    by_cases hl : job.Live l
    · obtain ⟨τ, hτ⟩ := hs.exists_type hl
      exact ⟨τ, fun _ => hτ⟩
    · exact ⟨.any, fun hl' => absurd hl' hl⟩
  choose types htypes using hex
  have ht : ∀ l τ, job.Live l → (job.HasType s.registry.nameOf? l τ ↔ types l = τ) := by
    intro l τ hl
    refine ⟨(htypes l hl).unique, ?_⟩
    rintro rfl
    exact htypes l hl
  exact ⟨s.registry.nameOf?, types, fun _ _ _ => hs.sound.consistent.location_unique, ht,
    fun _ _ => hs.describes ht⟩

theorem samples_describe_orders :
    ∃ m types name struct, (compile samples.options samples.documents).result = .ok m ∧
      m.get? name = some struct ∧
        samples.Describes types (.root 0) Sample.orders.schema.node struct := by
  obtain ⟨m, h, -⟩ := exists_samples_ok
  obtain ⟨names, types, -, -, hstruct⟩ := compile_describes h
  obtain ⟨name, struct, -, hget, hd⟩ :=
    hstruct (.root 0) _ (.root (by decide)) (Job.nodeAt?_root rfl) (by decide +kernel)
  exact ⟨m, types, name, struct, h, hget, hd⟩

end SchemaStructs
