import Mathlib.Data.List.Nodup
import SchemaStructs.Dict

namespace SchemaStructs

namespace Entries

variable {κ α : Type} [Key κ]

theorem get?_eq_none_iff {k : κ} {entries : Entries κ α} :
    get? k entries = none ↔ k ∉ entries.map Prod.fst := by
  induction entries with
  | nil => simp
  | cons e rest ih =>
    obtain ⟨l, b⟩ := e
    by_cases h : k = l
    · simp [get?_cons, h, Key.rank_self]
    · have hr : Key.rank k l ≠ .eq := fun he => h (Key.rank_eq_iff.mp he)
      simp [get?_cons, hr, h, ih]

theorem get?_of_mem {k : κ} {a : α} {entries : Entries κ α} (h : Ascending entries)
    (hm : (k, a) ∈ entries) : get? k entries = some a := by
  induction entries with
  | nil => cases hm
  | cons e rest ih =>
    obtain ⟨hlt, hrest⟩ := List.pairwise_cons.mp h
    obtain rfl | hm := List.mem_cons.mp hm
    · simp [get?_cons, Key.rank_self]
    · have hr : Key.rank k e.1 ≠ .eq := by
        intro he
        exact Key.ne_of_rank_lt (hlt _ hm) (Key.rank_eq_iff.mp he).symm
      rw [get?_cons, if_neg hr]
      exact ih hrest hm

theorem insert_perm {k : κ} {entries : Entries κ α} (h : get? k entries = none) (a : α) :
    (insert k a entries).Perm ((k, a) :: entries) := by
  induction entries with
  | nil => exact List.Perm.refl _
  | cons e rest ih =>
    obtain ⟨l, b⟩ := e
    rw [get?_cons] at h
    rw [insert]
    split
    next => exact List.Perm.refl _
    next hr => simp [hr] at h
    next hr =>
      have hrest : get? k rest = none := by simpa [hr] using h
      exact ((ih hrest).cons (l, b)).trans (List.Perm.swap _ _ _)

theorem nodup_keys {entries : Entries κ α} (h : Ascending entries) :
    (entries.map Prod.fst).Nodup := by
  apply List.pairwise_map.mpr
  exact h.imp fun hlt => Key.ne_of_rank_lt hlt

end Entries

namespace Dict

variable {κ α : Type} [Key κ]

@[simp] theorem values_empty : (∅ : Dict κ α).values = [] := rfl

theorem nodup_keys (d : Dict κ α) : d.keys.Nodup := Entries.nodup_keys d.ascending

theorem get?_eq_none_iff {d : Dict κ α} {k : κ} : d.get? k = none ↔ k ∉ d.keys :=
  Entries.get?_eq_none_iff

theorem mem_keys_iff {d : Dict κ α} {k : κ} : k ∈ d.keys ↔ ∃ a, d.get? k = some a := by
  rw [← Option.ne_none_iff_exists', ne_eq, get?_eq_none_iff, not_not]

theorem contains_iff {d : Dict κ α} {k : κ} : d.contains k = true ↔ k ∈ d.keys := by
  rw [contains, Option.isSome_iff_exists, mem_keys_iff]

theorem contains_insert [DecidableEq κ] (d : Dict κ α) (k k' : κ) (a : α) :
    (d.insert k a).contains k' = (decide (k' = k) || d.contains k') := by
  by_cases h : k' = k
  · subst h
    simp [contains]
  · simp [contains, get?_insert_of_ne d h, h]

theorem mem_entries_iff {d : Dict κ α} {k : κ} {a : α} :
    (k, a) ∈ d.entries ↔ d.get? k = some a :=
  ⟨Entries.get?_of_mem d.ascending, Entries.mem_of_get?⟩

@[ext] theorem ext_get? {d d' : Dict κ α} (h : ∀ k, d.get? k = d'.get? k) : d = d' := by
  have hmem : ∀ e, e ∈ d.entries ↔ e ∈ d'.entries := by
    rintro ⟨k, a⟩
    rw [mem_entries_iff, mem_entries_iff, h]
  have hperm : d.entries.Perm d'.entries :=
    (List.perm_ext_iff_of_nodup d.nodup_keys.of_map d'.nodup_keys.of_map).mpr hmem
  have hentries : d.entries = d'.entries := by
    refine hperm.eq_of_pairwise ?_ d.ascending d'.ascending
    intro a b _ _ hab hba
    exact absurd rfl (Key.ne_of_rank_lt (Key.rank_lt_trans hab hba))
  cases d
  cases d'
  cases hentries
  rfl

theorem keys_insert_perm {d : Dict κ α} {k : κ} (h : k ∉ d.keys) (a : α) :
    (d.insert k a).keys.Perm (k :: d.keys) :=
  (Entries.insert_perm (get?_eq_none_iff.mpr h) a).map Prod.fst

theorem values_insert_perm {d : Dict κ α} {k : κ} (h : k ∉ d.keys) (a : α) :
    (d.insert k a).values.Perm (a :: d.values) :=
  (Entries.insert_perm (get?_eq_none_iff.mpr h) a).map Prod.snd

end Dict

end SchemaStructs
