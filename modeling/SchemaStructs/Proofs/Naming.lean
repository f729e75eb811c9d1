import Mathlib.Data.List.Nodup
import Mathlib.Data.List.Perm.Subperm
import Mathlib.Order.Bounds.Defs
import SchemaStructs.Naming

namespace SchemaStructs.Naming

theorem numbered_injective (base : String) : Function.Injective (numbered base) := by
  intro m n h
  have hd : Nat.toDigits 10 m = Nat.toDigits 10 n := by
    simpa [numbered, Nat.toList_repr] using congrArg String.toList h
  simpa using congrArg (fun digits => Nat.ofDigitChars 10 digits 0) hd

theorem exists_free (taken : List String) (base : String) :
    ∃ name ∈ (List.range' 2 (taken.length + 1)).map (numbered base), name ∉ taken := by
  by_contra! hall
  have hnodup : ((List.range' 2 (taken.length + 1)).map (numbered base)).Nodup :=
    List.Nodup.map (numbered_injective base) List.nodup_range'
  have hlength := (List.subperm_of_subset hnodup hall).length_le
  simp only [List.length_map, List.length_range'] at hlength
  omega

/-- A taken name gets the least number from 2 on that makes a free name of it. -/
theorem exists_isLeast_renumbered (taken : List String) (base : String) :
    ∃ n, IsLeast {n | 2 ≤ n ∧ numbered base n ∉ taken} n ∧
      renumbered taken base = numbered base n := by
  obtain ⟨name, hm, hfree⟩ := exists_free taken base
  cases hf :
      (List.range' 2 (taken.length + 1)).find? fun n => !taken.contains (numbered base n) with
  | none =>
    obtain ⟨n, hn, rfl⟩ := List.mem_map.mp hm
    simpa [hfree] using List.find?_eq_none.mp hf n hn
  | some n =>
    obtain ⟨hnew, hn, hleast⟩ := List.find?_range'_eq_some.mp hf
    refine ⟨n, ⟨⟨(List.mem_range'_1.mp hn).1, by simpa using hnew⟩, ?_⟩, ?_⟩
    · rintro m ⟨hle, hmfree⟩
      by_contra hlt
      simpa [hmfree] using hleast m hle (Nat.lt_of_not_le hlt)
    · rw [renumbered, List.find?_map]
      simp only [Function.comp_def, hf, Option.map_some, Option.getD_some]

theorem renumbered_not_mem (taken : List String) (base : String) :
    renumbered taken base ∉ taken := by
  obtain ⟨n, hn, heq⟩ := exists_isLeast_renumbered taken base
  rw [heq]
  exact hn.1.2

theorem unique_not_mem (taken : List String) (base : String) : unique taken base ∉ taken := by
  by_cases h : base ∈ taken
  · simpa [unique, h] using renumbered_not_mem taken base
  · simp [unique, h]

end SchemaStructs.Naming
