import SchemaStructs.Dict.Key

namespace SchemaStructs

abbrev Entries (κ α : Type) := List (κ × α)

namespace Entries

variable {κ α : Type} [Key κ]

def Ascending (entries : Entries κ α) : Prop :=
  entries.Pairwise fun a b => Key.rank a.1 b.1 = .lt

def get? (k : κ) : Entries κ α → Option α
  | [] => none
  | (k', a) :: rest => if Key.rank k k' = .eq then some a else get? k rest

def insert (k : κ) (a : α) : Entries κ α → Entries κ α
  | [] => [(k, a)]
  | (k', a') :: rest =>
    match Key.rank k k' with
    | .lt => (k, a) :: (k', a') :: rest
    | .eq => (k, a) :: rest
    | .gt => (k', a') :: insert k a rest

/-- Inserts one after the other, so the last value of a repeated key stays. -/
def insertAll (new entries : Entries κ α) : Entries κ α :=
  new.foldl (fun es e => insert e.1 e.2 es) entries

@[simp] theorem get?_nil (k : κ) : get? k ([] : Entries κ α) = none := rfl

theorem get?_cons (k k' : κ) (a : α) (entries : Entries κ α) :
    get? k ((k', a) :: entries) = if Key.rank k k' = .eq then some a else get? k entries := rfl

@[simp] theorem get?_insert_self (k : κ) (a : α) (entries : Entries κ α) :
    get? k (insert k a entries) = some a := by
  induction entries with
  | nil => simp [insert, get?_cons, Key.rank_self]
  | cons e rest ih =>
    obtain ⟨l, b⟩ := e
    rw [insert]
    split
    next => simp [get?_cons, Key.rank_self]
    next => simp [get?_cons, Key.rank_self]
    next h => simp [get?_cons, h, ih]

theorem get?_insert_of_ne {k k' : κ} (hne : k' ≠ k) (a : α) (entries : Entries κ α) :
    get? k' (insert k a entries) = get? k' entries := by
  have hr : Key.rank k' k ≠ .eq := fun h => hne (Key.rank_eq_iff.1 h)
  induction entries with
  | nil => simp [insert, get?_cons, hr]
  | cons e rest ih =>
    obtain ⟨l, b⟩ := e
    rw [insert]
    split
    next => simp [get?_cons, hr]
    next h =>
      obtain rfl := Key.rank_eq_iff.1 h
      simp [get?_cons, hr]
    next => simp [get?_cons, ih]

theorem mem_of_get? {k : κ} {a : α} {entries : Entries κ α} (h : get? k entries = some a) :
    (k, a) ∈ entries := by
  induction entries with
  | nil => simp at h
  | cons e rest ih =>
    obtain ⟨l, b⟩ := e
    rw [get?_cons] at h
    split at h
    next he =>
      obtain rfl := Key.rank_eq_iff.1 he
      obtain rfl := Option.some.inj h
      exact List.mem_cons_self
    next => exact List.mem_cons_of_mem _ (ih h)

theorem eq_or_mem_of_mem_insert {k : κ} {a : α} {e : κ × α} {entries : Entries κ α}
    (h : e ∈ insert k a entries) : e = (k, a) ∨ e ∈ entries := by
  induction entries with
  | nil => exact .inl (by simpa [insert] using h)
  | cons x rest ih =>
    rw [insert] at h
    split at h
    next => exact List.mem_cons.1 h
    next =>
      rcases List.mem_cons.1 h with h | h
      · exact .inl h
      · exact .inr (List.mem_cons_of_mem _ h)
    next =>
      rcases List.mem_cons.1 h with h | h
      · exact .inr (List.mem_cons.2 (.inl h))
      · exact (ih h).imp_right (List.mem_cons_of_mem _)

theorem get?_eq_none_of_forall_ne {k : κ} {entries : Entries κ α} (h : ∀ e ∈ entries, k ≠ e.1) :
    get? k entries = none := by
  induction entries with
  | nil => rfl
  | cons e rest ih =>
    have hk : Key.rank k e.1 ≠ .eq := fun hr => h e List.mem_cons_self (Key.rank_eq_iff.1 hr)
    exact (if_neg hk).trans (ih fun x hx => h x (List.mem_cons_of_mem _ hx))

theorem mem_or_mem_of_mem_insertAll {e : κ × α} {new entries : Entries κ α}
    (h : e ∈ insertAll new entries) : e ∈ new ∨ e ∈ entries := by
  induction new generalizing entries with
  | nil => exact .inr h
  | cons x rest ih =>
    rcases ih h with h | h
    · exact .inl (List.mem_cons_of_mem _ h)
    · exact (eq_or_mem_of_mem_insert h).imp_left fun (hx : e = x) => hx ▸ List.mem_cons_self

@[simp] theorem ascending_nil : Ascending ([] : Entries κ α) := List.Pairwise.nil

theorem ascending_insert (k : κ) (a : α) {entries : Entries κ α} (h : Ascending entries) :
    Ascending (insert k a entries) := by
  induction entries with
  | nil => exact List.pairwise_singleton _ _
  | cons e rest ih =>
    obtain ⟨hlt, hrest⟩ := List.pairwise_cons.1 h
    rw [insert]
    split
    next hk =>
      refine List.pairwise_cons.2 ⟨fun x hx => ?_, h⟩
      rcases List.mem_cons.1 hx with rfl | hx
      · exact hk
      · exact Key.rank_lt_trans hk (hlt x hx)
    next hk =>
      have hk : k = e.1 := Key.rank_eq_iff.1 hk
      exact List.pairwise_cons.2 ⟨fun x hx => hk ▸ hlt x hx, hrest⟩
    next hk =>
      refine List.pairwise_cons.2 ⟨fun x hx => ?_, ih hrest⟩
      rcases eq_or_mem_of_mem_insert hx with rfl | hx
      · exact Key.rank_gt_iff.1 hk
      · exact hlt x hx

theorem ascending_insertAll (new : Entries κ α) {entries : Entries κ α} (h : Ascending entries) :
    Ascending (insertAll new entries) := by
  induction new generalizing entries with
  | nil => exact h
  | cons e rest ih => exact ih (ascending_insert e.1 e.2 h)

end Entries

end SchemaStructs
