import SchemaStructs.Proofs.FieldNames
import SchemaStructs.Proofs.Identity

namespace SchemaStructs

theorem Node.nodup_keys {n : Node} (h : n.Canonical) : (n.properties.map Prod.fst).Nodup :=
  (ascending_properties h).imp Key.ne_of_rank_lt

theorem Job.map_jsonName_of_fills {job : Job} {names : Location → Option String} {l : Location}
    {slots : List Slot} {fs : List Field} (h : List.Forall₂ (job.Fills names l) slots fs) :
    fs.map Field.jsonName = slots.map Slot.jsonName := by
  induction h with
  | nil => rfl
  | cons hf _ ih =>
    obtain ⟨τ, -, he⟩ := hf
    have hjson := congrArg Entry.jsonName he
    exact congrArg₂ List.cons hjson ih

theorem Job.Made.exists_declared {job : Job} {names : Location → Option String} {l : Location}
    {n : Node} {struct : Struct} (h : job.Made names l n struct) :
    ∃ declared extra, struct.fields.values.Perm (declared ++ extra) ∧
      declared.map Field.jsonName = n.properties.map Prod.fst ∧
      extra.map Field.jsonName = n.extra?.toList.map fun _ => "-" := by
  obtain ⟨fs, hp, hfs⟩ := h.fields
  have hjson := (map_jsonName_of_fills hfs).trans (n.map_jsonName_slots struct.name)
  obtain ⟨declared, extra, rfl, hdeclared, hextra⟩ := List.map_eq_append_iff.mp hjson
  exact ⟨declared, extra, hp, hdeclared, hextra⟩

namespace Synthesis

theorem Settled.exists_made {job : Job} {s : Synthesis} {name : String} {struct : Struct}
    (h : s.Settled job) (hl : s.DeclaresIn job.Live)
    (hs : s.registry.structs.get? name = some struct) :
    ∃ l n, job.Live l ∧ n.isStruct ∧ job.Made s.registry.nameOf? l n struct := by
  obtain ⟨l, hname⟩ := h.mem_keys_iff.mp (Dict.mem_keys_iff.mpr ⟨struct, hs⟩)
  obtain ⟨struct', n, hs', -, hm⟩ := h.exists_struct hname
  obtain rfl := Option.some.inj (hs.symm.trans hs')
  obtain ⟨hlive, n', hn', hst⟩ := (h.exists_name_iff hl).mp ⟨name, hname⟩
  obtain rfl := Option.some.inj (hm.node.symm.trans hn')
  exact ⟨l, n, hlive, hst, hm⟩

end Synthesis

open Synthesis

/-- The names by which fields stand in a value tell the fields of a struct apart, unless the struct
has a field for extra properties and declares a property `-` too. Then these two fields, and no
others, have one name. -/
theorem compile_jsonNames {job : Job} {m : StructMap} {name : String} {struct : Struct}
    (h : (compile job.options job.documents).result = .ok m) (hs : m.get? name = some struct) :
    ∃ l n declared extra, job.Live l ∧ job.nodeAt? l = some n ∧ n.isStruct ∧
      struct.origin = job.origin l ∧ struct.fields.values.Perm (declared ++ extra) ∧
      declared.map Field.jsonName = n.properties.map Prod.fst ∧
      extra.map Field.jsonName = n.extra?.toList.map (fun _ => "-") ∧
      (declared.map Field.jsonName).Nodup ∧
      ((struct.fields.values.map Field.jsonName).Nodup ↔
        ("-" ∈ n.properties.map Prod.fst → n.extra? = none)) := by
  obtain ⟨-, s, hroots, rfl, -⟩ := compile_ok h
  have hl : s.DeclaresIn job.Live := hroots.declaresIn_live (fun i => List.mem_range.mp) nofun
  obtain ⟨l, n, hlive, hst, hm⟩ := (settled_of_roots hroots).exists_made hl hs
  obtain ⟨declared, extra, hp, hdeclared, hextra⟩ := hm.exists_declared
  have hkeys : (declared.map Field.jsonName).Nodup :=
    hdeclared ▸ Node.nodup_keys (Job.canonical_nodeAt? hm.node)
  refine ⟨l, n, declared, extra, hlive, hm.node, hst, hm.origin, hp, hdeclared, hextra, hkeys, ?_⟩
  rw [(hp.map Field.jsonName).nodup_iff, List.map_append, hextra, ← hdeclared]
  cases n.extra? with
  | none => simpa using hkeys
  | some e =>
    have hlast : (declared.map Field.jsonName ++ ["-"]).Nodup ↔
        "-" ∉ declared.map Field.jsonName ∧ (declared.map Field.jsonName).Nodup :=
      List.nodup_append_comm.trans List.nodup_cons
    simp [hlast, hkeys]

theorem exists_struct_of_values {r : Except CompileError StructMap} {name : String}
    {fs : List Field}
    (h : r.toOption.bind (fun m => (m.get? name).map (·.fields.values)) = some fs) :
    ∃ m struct, r = .ok m ∧ m.get? name = some struct ∧ struct.fields.values = fs := by
  obtain ⟨m, hm, hget⟩ := Option.bind_eq_some_iff.mp h
  obtain ⟨struct, hstruct, hfs⟩ := Option.map_eq_some_iff.mp hget
  exact ⟨m, struct, Synth.eq_ok_of_toOption hm, hstruct, hfs⟩

def holding (key : String) : Written :=
  { Sample.named "object" with
    title := some "Holding"
    properties := [(key, Sample.named "string")]
    additional := some (.inr (Sample.named "integer")) }

theorem holding_jsonNames :
    ∃ m struct declared extra,
      (compile {} [{ id := "", root := (holding "extra").schema }]).result = .ok m ∧
      m.get? "Holding" = some struct ∧ struct.fields.size = 2 ∧
      struct.fields.values.Perm (declared ++ extra) ∧ (declared.map Field.jsonName).Nodup := by
  let job : Job := { documents := [{ id := "", root := (holding "extra").schema }] }
  obtain ⟨m, struct, h, hs, hfs⟩ : ∃ m struct,
      (compile job.options job.documents).result = .ok m ∧ m.get? "Holding" = some struct ∧
      struct.fields.values =
        [⟨"AdditionalProperties", "-", .map (.primitive .integer), false, none⟩,
          ⟨"Extra", "extra", .primitive .string, false, none⟩] :=
    exists_struct_of_values (by decide +kernel)
  obtain ⟨l, n, declared, extra, -, -, -, -, hp, -, -, hnodup, -⟩ := compile_jsonNames h hs
  have hsize : struct.fields.size = 2 := by
    simpa [Dict.values, Dict.size] using congrArg List.length hfs
  exact ⟨m, struct, declared, extra, h, hs, hsize, hp, hnodup⟩

/-- A property called `-` and the field for extra properties have one name in values. -/
theorem mark_taken_by_property :
    ∃ m struct f g, (compile {} [{ id := "", root := (holding "-").schema }]).result = .ok m ∧
      m.get? "Holding" = some struct ∧ f ∈ struct.fields.values ∧ g ∈ struct.fields.values ∧
      f.name ≠ g.name ∧ f.type ≠ g.type ∧ f.jsonName = "-" ∧ g.jsonName = "-" := by
  let extra : Field := ⟨"AdditionalProperties", "-", .map (.primitive .integer), false, none⟩
  let property : Field := ⟨"Field", "-", .primitive .string, false, none⟩
  obtain ⟨m, struct, h, hs, hfs⟩ : ∃ m struct,
      (compile {} [{ id := "", root := (holding "-").schema }]).result = .ok m ∧
      m.get? "Holding" = some struct ∧ struct.fields.values = [extra, property] :=
    exists_struct_of_values (by decide +kernel)
  exact ⟨m, struct, extra, property, h, hs, by simp [hfs], by simp [hfs], by decide, by decide,
    rfl, rfl⟩

end SchemaStructs
