import Mathlib.Data.List.Perm.Subperm
import Mathlib.Logic.Relation
import SchemaStructs.Proofs.Locations
import SchemaStructs.Proofs.Typing

namespace SchemaStructs.Job

variable {job : Job} {l m : Location} {j k : Nat}

/-- So many links lead from a node to one that has none. -/
inductive Ends (job : Job) : Nat → Location → Prop
  | here {l : Location} (h : ∀ m, ¬ job.Link l m) : Ends job 0 l
  | link {k : Nat} {l m : Location} (hl : job.Link l m) (h : Ends job k m) : Ends job (k + 1) l

def Grounded (job : Job) (l : Location) : Prop := ∃ k, job.Ends k l

theorem Ends.of_link (h : job.Ends k l) (hl : job.Link l m) : ∃ j, k = j + 1 ∧ job.Ends j m := by
  cases h with
  | here hno => exact absurd hl (hno m)
  | link hl' h => exact ⟨_, rfl, hl'.unique hl ▸ h⟩

theorem Ends.unique (h : job.Ends j l) (h' : job.Ends k l) : j = k := by
  induction h generalizing k with
  | here hno =>
    cases h' with
    | here => rfl
    | link hl => exact absurd hl (hno _)
  | link hl _ ih =>
    obtain ⟨i, rfl, hi⟩ := h'.of_link hl
    rw [ih hi]

theorem grounded_iff_of_link (h : job.Link l m) : job.Grounded l ↔ job.Grounded m := by
  constructor
  · rintro ⟨k, hk⟩
    obtain ⟨j, -, hj⟩ := hk.of_link h
    exact ⟨j, hj⟩
  · rintro ⟨k, hk⟩
    exact ⟨k + 1, .link h hk⟩

theorem IsStructAt.ends (h : job.IsStructAt l) : job.Ends 0 l :=
  .here fun _ hl => hl.not_isStructAt h

theorem HasType.grounded {names : Location → Option String} {τ : TypeDesc}
    (h : job.HasType names l τ) : job.Grounded l := by
  induction h with
  | leaf hn ht =>
    refine ⟨0, .here ?_⟩
    intro m hl
    cases hl <;> simp_all [Node.leafType?]
  | reference hn hk ht _ ih => exact (grounded_iff_of_link (.reference hn hk ht)).mpr ih
  | items hn hk _ ih => exact (grounded_iff_of_link (.items hn hk)).mpr ih
  | value hn hk _ ih => exact (grounded_iff_of_link (.value hn hk)).mpr ih
  | struct hn hs => exact ⟨0, IsStructAt.ends ⟨_, hn, hs⟩⟩

theorem Ends.of_transGen (h : Relation.TransGen job.Link l m) (hk : job.Ends k l) :
    ∃ j < k, job.Ends j m := by
  induction h with
  | single hl =>
    obtain ⟨j, rfl, hj⟩ := hk.of_link hl
    exact ⟨j, Nat.lt_succ_self j, hj⟩
  | tail _ hl ih =>
    obtain ⟨i, hi, hei⟩ := ih
    obtain ⟨j, rfl, hj⟩ := hei.of_link hl
    exact ⟨j, by omega, hj⟩

theorem Grounded.not_cycle (h : job.Grounded l) : ¬ Relation.TransGen job.Link l l := by
  intro hc
  obtain ⟨k, hk⟩ := h
  obtain ⟨j, hj, hej⟩ := Ends.of_transGen hc hk
  exact absurd (hej.unique hk) (Nat.ne_of_lt hj)

/-- The nodes on the way are all different, since each is followed by another number of links. -/
theorem Ends.exists_way {n : Node} (h : job.Ends k l) (hn : job.nodeAt? l = some n) :
    ∃ way : List Location, way.length = k + 1 ∧ way.Nodup ∧ way ⊆ job.locations ∧
      ∀ m ∈ way, ∃ j ≤ k, job.Ends j m := by
  induction h generalizing n with
  | @here l hno =>
    refine ⟨[l], rfl, List.nodup_singleton l, ?_, ?_⟩
    · simpa using mem_locations hn
    · simpa using Ends.here hno
  | @link k l m hl h ih =>
    obtain ⟨n', hn'⟩ := hl.exists_node
    obtain ⟨way, hlen, hnodup, hsub, hends⟩ := ih hn'
    have hl' : job.Ends (k + 1) l := .link hl h
    refine ⟨l :: way, by simp [hlen], List.nodup_cons.mpr ⟨?_, hnodup⟩,
      List.cons_subset.mpr ⟨mem_locations hn, hsub⟩, ?_⟩
    · intro hm
      obtain ⟨j, hj, hej⟩ := hends l hm
      have := hej.unique hl'
      omega
    · intro m' hm'
      obtain rfl | hm' := List.mem_cons.mp hm'
      · exact ⟨k + 1, Nat.le_refl _, hl'⟩
      · obtain ⟨j, hj, hej⟩ := hends m' hm'
        exact ⟨j, by omega, hej⟩

theorem Ends.lt_size {n : Node} (h : job.Ends k l) (hn : job.nodeAt? l = some n) :
    k < job.size := by
  obtain ⟨way, hlen, hnodup, hsub, -⟩ := h.exists_way hn
  have hle := (List.subperm_of_subset hnodup hsub).length_le
  rw [hlen, length_locations] at hle
  omega

end SchemaStructs.Job
