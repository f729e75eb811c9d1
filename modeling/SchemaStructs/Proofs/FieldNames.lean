import SchemaStructs.Proofs.Naming
import SchemaStructs.Proofs.Step
import SchemaStructs.Sample

namespace SchemaStructs

namespace Naming

/-- What a name becomes beside earlier names: it stays if none of them is the same, otherwise it
gets the least number from 2 on that makes it differ from all of them. -/
def Distinguished (earlier : List String) (base name : String) : Prop :=
  base ∉ earlier ∧ name = base ∨
    base ∈ earlier ∧ ∃ n, IsLeast {n | 2 ≤ n ∧ numbered base n ∉ earlier} n ∧
      name = numbered base n

theorem distinguished_unique (taken : List String) (base : String) :
    Distinguished taken base (unique taken base) := by
  by_cases h : base ∈ taken
  · obtain ⟨n, hn, heq⟩ := exists_isLeast_renumbered taken base
    exact .inr ⟨h, n, hn, by simpa [unique, h] using heq⟩
  · exact .inl ⟨h, by simp [unique, h]⟩

theorem Distinguished.perm {earlier earlier' : List String} {base name : String}
    (h : Distinguished earlier base name) (hp : earlier.Perm earlier') :
    Distinguished earlier' base name := by
  have hmem : ∀ x, x ∈ earlier ↔ x ∈ earlier' := fun x => hp.mem_iff
  simpa only [Distinguished, hmem] using h

end Naming

open Naming (Distinguished)

namespace Node

def fieldBases (n : Node) : List String :=
  n.properties.map (fun p => Naming.fieldName p.1) ++
    n.extra?.toList.map fun _ => "AdditionalProperties"

variable {n : Node}

theorem map_base_slots (n : Node) (name : String) :
    (n.slots name).map Slot.base = n.fieldBases := by
  simp [slots, fieldBases, Function.comp_def, Slot.ofProperty, Slot.ofExtra]

theorem map_jsonName_slots (n : Node) (name : String) :
    (n.slots name).map Slot.jsonName =
      n.properties.map Prod.fst ++ n.extra?.toList.map fun _ => "-" := by
  simp [slots, Function.comp_def, Slot.ofProperty, Slot.ofExtra]

theorem length_slots (n : Node) (name : String) :
    (n.slots name).length = n.properties.length + if n.extra?.isSome then 1 else 0 := by
  cases he : n.extra? <;> simp [slots, he]

theorem ascending_properties (h : n.Canonical) :
    (n.properties.map Prod.fst).Pairwise fun k k' => Key.rank k k' = .lt := by
  have hrank : ∀ k k' : String, Key.rank (Segment.property k) (.property k') = Key.rank k k' :=
    fun _ _ => rfl
  cases n with
  | mk head children =>
    apply List.pairwise_map.mpr
    apply List.pairwise_filterMap.mpr
    refine (canonical_mk.mp h).1.imp ?_
    intro e e' hlt p hp q hq
    rwa [property?_eq_some_iff.mp hp, property?_eq_some_iff.mp hq, hrank] at hlt

end Node

structure Slot.Lists (slots : List Slot) (fields : Dict String Field) (fs : List Field) : Prop where
  stored : fields.entries.Perm (fs.map fun f => (f.name, f))
  jsonNames : fs.map Field.jsonName = slots.map Slot.jsonName
  named : ∀ i slot f, slots[i]? = some slot → fs[i]? = some f →
    Distinguished ((fs.take i).map Field.name) slot.base f.name

namespace Slot.Lists

variable {slots : List Slot} {fields : Dict String Field} {fs : List Field}

theorem keys_perm (h : Lists slots fields fs) : fields.keys.Perm (fs.map Field.name) := by
  simpa [Dict.keys, Function.comp_def] using h.stored.map Prod.fst

theorem nodup_names (h : Lists slots fields fs) : (fs.map Field.name).Nodup :=
  h.keys_perm.nodup_iff.mp fields.nodup_keys

theorem length_eq (h : Lists slots fields fs) : fs.length = slots.length := by
  simpa using congrArg List.length h.jsonNames

theorem size_eq (h : Lists slots fields fs) : fields.size = slots.length := by
  rw [← h.length_eq]
  simpa [Dict.size] using h.stored.length_eq

theorem nil : Lists [] ∅ [] := ⟨.refl _, rfl, nofun⟩

theorem add (h : Lists slots fields fs) (slot : Slot) (τ : TypeDesc) :
    ∃ f, Lists (slots ++ [slot]) (slot.add fields τ) (fs ++ [f]) := by
  let name := Naming.unique fields.keys slot.base
  let f : Field :=
    ⟨name, slot.jsonName, slot.wrap τ, slot.required, slot.node.head.description⟩
  have hfree : fields.get? name = none :=
    Dict.get?_eq_none_iff.mpr (Naming.unique_not_mem fields.keys slot.base)
  have hnamed : Distinguished (fs.map Field.name) slot.base name :=
    (Naming.distinguished_unique fields.keys slot.base).perm h.keys_perm
  refine ⟨f, ?_, ?_, ?_⟩
  · rw [List.map_append]
    exact ((Entries.insert_perm hfree f).trans (h.stored.cons _)).trans
      (List.perm_append_singleton _ _).symm
  · simp [h.jsonNames, f]
  · intro i slot' f' hslot hf
    obtain hlt | hge := Nat.lt_or_ge i slots.length
    · have hlt' : i < fs.length := h.length_eq.symm ▸ hlt
      rw [List.getElem?_append_left hlt] at hslot
      rw [List.getElem?_append_left hlt'] at hf
      rw [List.take_append_of_le_length (Nat.le_of_lt hlt')]
      exact h.named i slot' f' hslot hf
    · -- The new slot is the last one, so all other fields are earlier.
      have hlast : i = slots.length := by
        have hi := (List.getElem?_eq_some_iff.mp hslot).1
        rw [List.length_append, List.length_singleton] at hi
        omega
      have hlast' : i = fs.length := hlast.trans h.length_eq.symm
      obtain rfl : slot = slot' := by simpa [hlast] using hslot
      obtain rfl : f = f' := by simpa [hlast'] using hf
      rw [hlast', List.take_left]
      exact hnamed

end Slot.Lists

namespace Synthesis

open Slot (Lists)

variable {job : Job} {w : Node → Location → String → Synth TypeDesc} {node : Node}
  {here : Location} {key : String} {s s' : Synthesis}

theorem Slots.lists {done slots : List Slot} {fields fields' : Dict String Field} {fs : List Field}
    (h : Slots w here slots fields s (.ok fields') s') (hl : Lists done fields fs) :
    ∃ fs', Lists (done ++ slots) fields' fs' := by
  generalize hr : Except.ok fields' = r at h
  induction h generalizing done fs with
  | nil =>
    cases hr
    exact ⟨fs, by rwa [List.append_nil]⟩
  | fail => cases hr
  | @cons slot rest fields τ s s₁ s' r hw _ ih =>
    obtain ⟨f, hadd⟩ := hl.add slot τ
    obtain ⟨fs', hfs⟩ := ih hadd hr
    exact ⟨fs', by rwa [List.append_assoc] at hfs⟩

theorem exists_slots_of_struct {τ : TypeDesc} (hnew : s.registry.nameOf? here = none)
    (h : struct job w node here key node.extra? s = (.ok τ, s')) :
    ∃ name fields s₀ s₁, Slots w here (node.slots name) ∅ s₀ (.ok fields) s₁ ∧
      τ = .struct name ∧
      s' = s₁.closed ⟨name, job.origin here, node.head.description, fields⟩ := by
  cases hd : s.registry.declare here (Naming.typeName node.head.title key) (job.origin here)
      (job.stem? here.document) with
  | error e =>
    rw [struct, Synth.get_bind, hnew] at h
    cases (Synth.bind_error (openStruct_of_error hd)).symm.trans h
  | ok named =>
    obtain ⟨name, registry, events⟩ := named
    rw [struct_of_declare hnew hd] at h
    cases hf : fill w here (node.slots name) ∅ (s.opened registry events) with
    | mk result s₁ =>
      cases result with
      | error e => cases (Synth.bind_error hf).symm.trans h
      | ok fields =>
        cases (Synth.bind_ok hf).symm.trans h
        exact ⟨name, fields, _, s₁, fill_iff.mp hf, rfl, rfl⟩

theorem struct_of_named {τ : TypeDesc} {name : String} {extra : Option Node}
    (hname : s.registry.nameOf? here = some name)
    (h : struct job w node here key extra s = (.ok τ, s')) : τ = .struct name ∧ s' = s := by
  rw [struct, Synth.get_bind] at h
  simp only [hname] at h
  split at h
  · cases h
  · cases h
    exact ⟨rfl, rfl⟩

/-- No property is lost in a struct, and no two are merged. Unless the node has its struct already,
the fields can be listed so that there is one for every property, in the order of the keys, and then
one for extra properties that have a schema. Each is stored under its own name, and this is the one
it asks for, unless an earlier field has that name: then it is numbered, by the least number that
makes a new name. Whatever makes the types of the fields has no part in this. -/
theorem struct_fields {τ : TypeDesc} (hc : node.Canonical)
    (h : struct job w node here key node.extra? s = (.ok τ, s')) :
    (∃ name, s.registry.nameOf? here = some name ∧ τ = .struct name ∧ s' = s) ∨
      s.registry.nameOf? here = none ∧ ∃ (made : Struct) (fs : List Field),
        τ = .struct made.name ∧ s'.registry.structs.get? made.name = some made ∧
        made.fields.size = node.properties.length + (if node.extra?.isSome then 1 else 0) ∧
        made.fields.entries.Perm (fs.map fun f => (f.name, f)) ∧ (fs.map Field.name).Nodup ∧
        (node.properties.map Prod.fst).Pairwise (fun k k' => Key.rank k k' = .lt) ∧
        fs.map Field.jsonName =
          node.properties.map Prod.fst ++ node.extra?.toList.map (fun _ => "-") ∧
        ∀ i base f, node.fieldBases[i]? = some base → fs[i]? = some f →
          Distinguished ((fs.take i).map Field.name) base f.name := by
  cases hname : s.registry.nameOf? here with
  | some name =>
    obtain ⟨rfl, rfl⟩ := struct_of_named hname h
    exact .inl ⟨name, rfl, rfl, rfl⟩
  | none =>
    obtain ⟨name, fields, s₀, s₁, hslots, rfl, rfl⟩ := exists_slots_of_struct hname h
    obtain ⟨fs, hfs⟩ := hslots.lists .nil
    refine .inr ⟨rfl, ⟨name, job.origin here, node.head.description, fields⟩, fs, rfl,
      Dict.get?_insert_self _ _ _, hfs.size_eq.trans (node.length_slots name), hfs.stored,
      hfs.nodup_names, Node.ascending_properties hc, ?_, ?_⟩
    · rw [hfs.jsonNames]
      exact node.map_jsonName_slots name
    · intro i base f hbase hf
      rw [← node.map_base_slots name, List.getElem?_map] at hbase
      obtain ⟨slot, hslot, rfl⟩ := Option.map_eq_some_iff.mp hbase
      exact hfs.named i slot f hslot hf

def clash : Written :=
  { Sample.named "object" with
    title := some "Clash"
    properties := [("foo", Sample.named "string"), ("Foo", Sample.named "string"),
      ("foo2", Sample.named "string"), ("additionalProperties", Sample.named "string")]
    additional := some (.inr (Sample.named "integer")) }

theorem clash_fields :
    let job : Job := { documents := [{ id := "", root := clash.schema }] }
    let call := struct job (walk job 1) clash.node (.root 0) "" clash.node.extra? (start {})
    ∃ (made : Struct) (fs : List Field),
      call.1 = .ok (.struct made.name) ∧ call.2.registry.structs.get? made.name = some made ∧
        made.fields.keys =
          ["AdditionalProperties", "AdditionalProperties2", "Foo", "Foo2", "Foo22"] ∧
        made.fields.entries.Perm (fs.map fun f => (f.name, f)) ∧
        fs.map Field.jsonName = ["Foo", "additionalProperties", "foo", "foo2", "-"] := by
  intro job call
  have hok : call.1 = .ok (.struct "Clash") := by decide +kernel
  have hkeys : (call.2.registry.structs.get? "Clash").map (·.fields.keys) =
      some ["AdditionalProperties", "AdditionalProperties2", "Foo", "Foo2", "Foo22"] := by
    decide +kernel
  have hjson : clash.node.properties.map Prod.fst ++ clash.node.extra?.toList.map (fun _ => "-") =
      ["Foo", "additionalProperties", "foo", "foo2", "-"] := by decide +kernel
  have hcall : call = (.ok (.struct "Clash"), call.2) := Prod.ext hok rfl
  obtain ⟨name, hnamed, -⟩ | ⟨-, made, fs, hname, hmade, -, hstored, -, -, hfs, -⟩ :=
    struct_fields clash.canonical_node hcall
  · cases hnamed
  · have hname : "Clash" = made.name := TypeDesc.struct.inj hname
    rw [hname] at hok hkeys
    refine ⟨made, fs, hok, hmade, ?_, hstored, hfs.trans hjson⟩
    simpa [hmade] using hkeys

end Synthesis

end SchemaStructs
