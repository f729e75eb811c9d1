import SchemaStructs.Proofs.Roots
import SchemaStructs.Proofs.Termination
import SchemaStructs.Sample

namespace SchemaStructs.Synthesis

/-- The states that calls lead to, one after the other. A call that fails counts too. -/
inductive Reached (job : Job) : Synthesis → Prop
  | start : Reached job (start job.options)
  | root {s : Synthesis} (h : Reached job s) (document : Nat) :
    Reached job (synthesizeRoot job document s).2
  | node {s : Synthesis} {l : Location} {node : Node} (h : Reached job s)
    (hn : job.nodeAt? l = some node) (key : String) : Reached job (synthesize job node l key s).2

variable {job : Job} {s : Synthesis}

/-- Between calls no target is entered, and all that is known is true. -/
theorem Reached.sound (h : Reached job s) : s.Sound job ∧ s.inFlight = [] := by
  have hcall : ∀ {s node l key}, job.nodeAt? l = some node → s.Sound job ∧ s.inFlight = [] →
      (synthesize job node l key s).2.Sound job ∧
        (synthesize job node l key s).2.inFlight = [] := by
    rintro s node l key hn ⟨hs, hi⟩
    refine ⟨(walk_faithful _ _ _ _ _ _ _ rfl hn hs).1, ?_⟩
    exact (walk_after rfl).grown.inFlight.trans hi
  induction h with
  | start => exact ⟨sound_start _, rfl⟩
  | root _ document ih =>
    obtain hlt | hle := Nat.lt_or_ge document job.documents.length
    · obtain ⟨node, hn, hroot⟩ := exists_root hlt
      rw [hroot]
      exact hcall hn ih
    · rw [synthesizeRoot_of_le hle]
      exact ih
  | node _ hn key ih => exact hcall hn ih

/-- No call runs out of steps, whatever was called before it: from the allowance on, which depends
on the size of the documents only, the number of steps makes no difference. -/
theorem Reached.terminates (h : Reached job s) :
    (∀ document, (synthesizeRoot job document s).1 ≠ .error .tooDeep) ∧
      ∀ l node key, job.nodeAt? l = some node → ∀ n ≥ job.allowance,
        (walk job n node l key s).1 ≠ .error .tooDeep ∧
          walk job n node l key s = synthesize job node l key s := by
  obtain ⟨hs, hi⟩ := h.sound
  have hcall : ∀ l node key, job.nodeAt? l = some node →
      (synthesize job node l key s).1 ≠ .error .tooDeep :=
    fun l node key hn => synthesize_ne_tooDeep hn hs hi
  constructor
  · intro document
    obtain hlt | hle := Nat.lt_or_ge document job.documents.length
    · obtain ⟨node, hn, hroot⟩ := exists_root hlt
      rw [hroot]
      exact hcall _ _ _ hn
    · rw [synthesizeRoot_of_le hle]
      exact nofun
  · intro l node key hn n hle
    have heq : walk job n node l key s = synthesize job node l key s :=
      walk_of_le hle (hcall l node key hn)
    exact ⟨heq ▸ hcall l node key hn, heq⟩

def endless : Job where
  documents := [{
    id := "endless"
    root := Written.schema
      { Sample.named "array" with
        items := some (Sample.referring "#")
        definitions :=
          [("node",
            { Sample.named "object" with
              properties :=
                [("all", Sample.referring "#"),
                  ("next", Sample.referring "#/definitions/node")] })] } }]

theorem endless_terminates :
    let first := synthesizeRoot endless 0 (start endless.options)
    let record := (Location.root 0).join (.definition "node")
    first.1.toOption = none ∧ (synthesizeRoot endless 0 first.2).1 ≠ .error .tooDeep ∧
      ∃ node, endless.nodeAt? record = some node ∧
        (walk endless endless.allowance node record "node" first.2).1 ≠ .error .tooDeep :=
  have h := Reached.terminates (.root .start 0)
  ⟨rfl, h.1 0, _, rfl, (h.2 _ _ "node" rfl _ (Nat.le_refl _)).1⟩

end SchemaStructs.Synthesis
