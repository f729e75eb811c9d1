import Mathlib.Data.Option.Basic
import SchemaStructs.Proofs.Typing

namespace SchemaStructs

namespace Dict

variable {κ α β : Type} [Key κ]

def mapValues (f : κ → α → β) (d : Dict κ α) : Dict κ β where
  entries := d.entries.map fun e : κ × α => (e.1, f e.1 e.2)
  ascending := List.pairwise_map.mpr d.ascending

@[simp] theorem keys_mapValues (f : κ → α → β) (d : Dict κ α) : (d.mapValues f).keys = d.keys := by
  simp [keys, mapValues]

@[simp] theorem get?_mapValues (f : κ → α → β) (d : Dict κ α) (k : κ) :
    (d.mapValues f).get? k = (d.get? k).map (f k) := by
  have hget : ∀ entries : Entries κ α, Entries.get? k (entries.map fun e => (e.1, f e.1 e.2)) =
      (Entries.get? k entries).map (f k) := by
    intro entries
    induction entries with
    | nil => rfl
    | cons e rest ih =>
      rw [List.map_cons, Entries.get?_cons, Entries.get?, ih]
      split
      next hk => rw [Key.rank_eq_iff.mp hk, Option.map_some]
      next => rfl
  exact hget d.entries

theorem mapValues_insert (f : κ → α → β) (d : Dict κ α) (k : κ) (a : α) :
    (d.insert k a).mapValues f = (d.mapValues f).insert k (f k a) := by
  ext1 k'
  by_cases hk : k' = k
  · subst hk
    simp
  · simp [get?_insert_of_ne _ hk]

end Dict

/-- Whether a field is that of a property. The field that collects extra properties has the key `-`,
which a property may have too, but these differ by name. -/
def Field.isOf (key : String) (f : Field) : Bool :=
  f.jsonName = key && (Naming.fieldName key).toList.isPrefixOf f.name.toList

namespace Struct

def undescribed (key : String) (fields : Dict String Field) : Dict String Field :=
  fields.mapValues fun _ f => if f.isOf key then { f with description := none } else f

/-- Two structs are the same up to their origins, and one may describe the field of a property
otherwise than the other if `exempt`. -/
structure Like (key : String) (exempt : Prop) (a b : Struct) : Prop where
  name : b.name = a.name
  description : b.description = a.description
  fields : undescribed key b.fields = undescribed key a.fields
  others : ¬ exempt → b.fields = a.fields

theorem Like.mono {key : String} {exempt exempt' : Prop} {a b : Struct} (h : Like key exempt a b)
    (he : exempt → exempt') : Like key exempt' a b :=
  ⟨h.name, h.description, h.fields, fun hn => h.others (mt he hn)⟩

end Struct

def StructMap.erase (owner : Option String) (key : String) (m : StructMap) : StructMap :=
  m.mapValues fun name s =>
    { s with
      origin := ""
      fields := if owner = some name then Struct.undescribed key s.fields else s.fields }

theorem StructMap.erase_eq_of_like {owner : Option String} {key : String} {m m' : StructMap}
    (h : ∀ name, Option.Rel (Struct.Like key (owner = some name)) (m.get? name) (m'.get? name)) :
    m'.erase owner key = m.erase owner key := by
  apply Dict.ext_get?
  intro name
  have hname := h name
  simp only [erase, Dict.get?_mapValues]
  generalize m.get? name = a, m'.get? name = b at hname
  cases hname with
  | none => rfl
  | some hlike =>
    obtain ⟨hname, hdescription, hfields, hothers⟩ := hlike
    by_cases hown : owner = some name
    · simp [hown, hname, hdescription, hfields]
    · simp [hown, hname, hdescription, hothers hown]

theorem Naming.prefix_unique (taken : List String) (base : String) :
    base.toList <+: (unique taken base).toList := by
  have hnumbered : ∀ n, base.toList <+: (numbered base n).toList := by
    intro n
    simp [numbered]
  unfold unique renumbered
  dsimp only
  split
  · cases hf : ((List.range' 2 (taken.length + 1)).map (numbered base)).find?
        fun s => !taken.contains s with
    | none => exact List.prefix_refl _
    | some name =>
      obtain ⟨n, -, rfl⟩ := List.mem_map.mp (List.mem_of_find?_eq_some hf)
      exact hnumbered n
  · exact List.prefix_refl _

namespace Slot

theorem undescribed_add (key : String) (slot : Slot) (fields fields' : Dict String Field)
    (τ : TypeDesc) (h : Struct.undescribed key fields' = Struct.undescribed key fields) :
    Struct.undescribed key (slot.add fields' τ) = Struct.undescribed key (slot.add fields τ) := by
  have hkeys : fields'.keys = fields.keys := by
    have hk := congrArg Dict.keys h
    rwa [Struct.undescribed, Struct.undescribed, Dict.keys_mapValues, Dict.keys_mapValues] at hk
  simp only [add, Synthesis.addField, hkeys]
  rw [Struct.undescribed, Dict.mapValues_insert, ← Struct.undescribed, h, Struct.undescribed,
    Struct.undescribed, Dict.mapValues_insert]

theorem undescribed_add_property {n m m' : Node} (key : String) (fields : Dict String Field)
    (τ : TypeDesc) :
    Struct.undescribed key ((ofProperty n (key, m')).add fields τ) =
      Struct.undescribed key ((ofProperty n (key, m)).add fields τ) := by
  have hprefix := Naming.prefix_unique fields.keys (Naming.fieldName key)
  simp only [add, ofProperty, Synthesis.addField, Struct.undescribed, Dict.mapValues_insert]
  congr 1
  simp [Field.isOf, hprefix]

end Slot

end SchemaStructs
