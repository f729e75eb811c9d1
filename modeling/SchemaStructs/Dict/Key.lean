namespace SchemaStructs

/-- A type of keys with a total order in which only equal keys rank equal. -/
class Key (κ : Type) where
  rank : κ → κ → Ordering
  trans : Std.TransCmp rank
  lawful : Std.LawfulEqCmp rank

attribute [instance] Key.trans Key.lawful

namespace Key

variable {κ μ : Type}

section
variable [Key κ]

theorem rank_eq_iff {a b : κ} : rank a b = .eq ↔ a = b :=
  Std.LawfulEqCmp.compare_eq_iff_eq

theorem rank_self (a : κ) : rank a a = .eq := rank_eq_iff.2 rfl

theorem rank_swap (a b : κ) : rank a b = (rank b a).swap := Std.OrientedCmp.eq_swap

theorem rank_gt_iff {a b : κ} : rank a b = .gt ↔ rank b a = .lt :=
  Std.OrientedCmp.gt_iff_lt

theorem rank_lt_trans {a b c : κ} (hab : rank a b = .lt) (hbc : rank b c = .lt) :
    rank a c = .lt :=
  Std.TransCmp.lt_trans hab hbc

theorem rank_isLE_trans {a b c : κ} (hab : (rank a b).isLE) (hbc : (rank b c).isLE) :
    (rank a c).isLE :=
  Std.TransCmp.isLE_trans hab hbc

theorem ne_of_rank_lt {a b : κ} (h : rank a b = .lt) : a ≠ b := by
  rintro rfl
  simp [rank_self] at h

end

abbrev through [Key μ] (f : κ → μ) (inj : ∀ a b, f a = f b → a = b) : Key κ where
  rank a b := rank (f a) (f b)
  trans := { eq_swap := rank_swap _ _, isLE_trans := rank_isLE_trans }
  lawful := { compare_self := rank_self _, eq_of_compare := fun h => inj _ _ (rank_eq_iff.1 h) }

end Key

instance : Key Nat := ⟨compare, inferInstance, inferInstance⟩

instance : Key Char := Key.through Char.toNat fun _ _ => Char.toNat_inj.1

instance {κ : Type} [Key κ] : Key (List κ) :=
  ⟨List.compareLex Key.rank, inferInstance, inferInstance⟩

instance : Key String := Key.through String.toList fun _ _ => String.toList_inj.1

instance {κ μ : Type} [Key κ] [Key μ] : Key (κ × μ) where
  rank := compareLex (fun a b => Key.rank a.1 b.1) (fun a b => Key.rank a.2 b.2)
  trans :=
    have : Std.TransCmp fun a b : κ × μ => Key.rank a.1 b.1 :=
      { eq_swap := Key.rank_swap _ _, isLE_trans := Key.rank_isLE_trans }
    have : Std.TransCmp fun a b : κ × μ => Key.rank a.2 b.2 :=
      { eq_swap := Key.rank_swap _ _, isLE_trans := Key.rank_isLE_trans }
    inferInstance
  lawful :=
    { compare_self := by simp [compareLex, Key.rank_self]
      eq_of_compare := fun h => by
        simp only [compareLex, Ordering.then_eq_eq, Key.rank_eq_iff] at h
        exact Prod.ext h.1 h.2 }

end SchemaStructs
