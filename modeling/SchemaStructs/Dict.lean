import SchemaStructs.Dict.Entries

namespace SchemaStructs

structure Dict (κ α : Type) [Key κ] where
  entries : Entries κ α := []
  ascending : entries.Ascending := by exact Entries.ascending_nil

namespace Dict

variable {κ α : Type} [Key κ]

instance [DecidableEq κ] [DecidableEq α] : DecidableEq (Dict κ α) := fun a b =>
  if h : a.entries = b.entries then
    .isTrue (by cases a; cases b; cases h; rfl)
  else
    .isFalse fun hab => h (congrArg entries hab)

def empty : Dict κ α := {}

instance : EmptyCollection (Dict κ α) := ⟨empty⟩

def get? (d : Dict κ α) (k : κ) : Option α := Entries.get? k d.entries

def contains (d : Dict κ α) (k : κ) : Bool := (d.get? k).isSome

def insert (d : Dict κ α) (k : κ) (a : α) : Dict κ α :=
  ⟨Entries.insert k a d.entries, Entries.ascending_insert k a d.ascending⟩

def size (d : Dict κ α) : Nat := d.entries.length

def isEmpty (d : Dict κ α) : Bool := d.entries.isEmpty

def keys (d : Dict κ α) : List κ := d.entries.map Prod.fst

def values (d : Dict κ α) : List α := d.entries.map Prod.snd

@[simp] theorem get?_empty (k : κ) : (∅ : Dict κ α).get? k = none := rfl

@[simp] theorem get?_insert_self (d : Dict κ α) (k : κ) (a : α) :
    (d.insert k a).get? k = some a :=
  Entries.get?_insert_self k a d.entries

theorem get?_insert_of_ne (d : Dict κ α) {k k' : κ} (hne : k' ≠ k) (a : α) :
    (d.insert k a).get? k' = d.get? k' :=
  Entries.get?_insert_of_ne hne a d.entries

end Dict

end SchemaStructs
