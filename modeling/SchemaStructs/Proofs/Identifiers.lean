import SchemaStructs.Proofs.BaseNames
import SchemaStructs.Proofs.Fields
import SchemaStructs.Proofs.JsonNames

namespace SchemaStructs

namespace Naming

open Text (upperCase)

def isPlain (c : Char) : Bool := c.isAlphanum || c == '_'

def IsIdentifier (name : String) : Prop := name ≠ "" ∧ ∀ c ∈ name.toList, isPlain c

/-- A text in which no other characters than plain ones can stand in an identifier. -/
def Plain (t : String) : Prop := ∀ c ∈ t.toList, isIdentifierChar c → isPlain c

instance (name : String) : Decidable (IsIdentifier name) :=
  @instDecidableAnd _ _ _ (List.decidableBAll (fun c => isPlain c) name.toList)

instance (t : String) : Decidable (Plain t) :=
  List.decidableBAll (fun c => isIdentifierChar c → isPlain c) t.toList

variable {base key label t : String} {title : Option String}

theorem lt_of_isPlain {c : Char} (h : isPlain c) : c.toNat < 0x80 := by
  have hupper : c.isUpper → c.toNat ≤ 90 := fun h =>
    UInt32.le_iff_toNat_le.mp (of_decide_eq_true h).2
  have hlower : c.isLower → c.toNat ≤ 122 := fun h =>
    UInt32.le_iff_toNat_le.mp (of_decide_eq_true (Bool.and_eq_true_iff.mp h).2)
  have hdigit : c.isDigit → c.toNat ≤ 57 := fun h =>
    UInt32.le_iff_toNat_le.mp (of_decide_eq_true (Bool.and_eq_true_iff.mp h).2)
  obtain h | h := Bool.or_eq_true_iff.mp h
  · obtain h | h := Bool.or_eq_true_iff.mp h
    · obtain h | h := Bool.or_eq_true_iff.mp h
      · exact Nat.lt_of_le_of_lt (hupper h) (by decide)
      · exact Nat.lt_of_le_of_lt (hlower h) (by decide)
    · exact Nat.lt_of_le_of_lt (hdigit h) (by decide)
  · obtain rfl : c = '_' := eq_of_beq h
    decide

theorem isPlain_toUpper {c : Char} (h : isPlain c) : isPlain c.toUpper := by
  have hall : ∀ n < 0x80, isPlain (Char.ofNat n) → isPlain (Char.ofNat n).toUpper := by
    decide +kernel
  have hc := hall c.toNat (lt_of_isPlain h)
  rw [Char.ofNat_toNat] at hc
  exact hc h

theorem isPlain_upperCase {c d : Char} (h : isPlain c) (hd : d ∈ upperCase c) : isPlain d := by
  rw [upperCase, if_pos (lt_of_isPlain h)] at hd
  rw [List.mem_singleton.mp hd]
  exact isPlain_toUpper h

theorem isPlain_exportedFrom {cs : List Char} (h : ∀ c ∈ cs, isIdentifierChar c → isPlain c)
    (starts : Bool) : ∀ d ∈ exportedFrom starts cs, isPlain d := by
  induction cs generalizing starts with
  | nil => simp [exportedFrom]
  | cons c cs ih =>
    obtain ⟨hc, hcs⟩ := List.forall_mem_cons.mp h
    rw [exportedFrom]
    split
    next hkept =>
      refine List.forall_mem_append.mpr ⟨?_, ih hcs false⟩
      cases starts with
      | false => simpa using hc hkept
      | true => exact fun d => isPlain_upperCase (hc hkept)
    next => exact ih hcs true

theorem Plain.exported (h : Plain t) : ∀ c ∈ (exported t).toList, isPlain c := by
  rw [Naming.exported, String.toList_ofList]
  exact isPlain_exportedFrom h true

theorem IsIdentifier.plain (h : IsIdentifier t) : Plain t := fun c hc _ => h.2 c hc

theorem Plain.append {t' : String} (h : Plain t) (h' : Plain t') : Plain (t ++ t') := by
  intro c hc
  rw [String.toList_append] at hc
  exact (List.mem_append.mp hc).elim (h c) (h' c)

theorem typeName_ne_empty : typeName title key ≠ "" := by
  unfold typeName
  dsimp only
  split
  · decide
  next h => simpa using h

theorem fieldName_ne_empty : fieldName key ≠ "" := by
  unfold fieldName
  dsimp only
  split
  · decide
  next h => simpa using h

theorem isIdentifier_of_default {name other : String} (hname : ∀ c ∈ name.toList, isPlain c)
    (hother : IsIdentifier other) : IsIdentifier (if name.isEmpty then other else name) := by
  split
  · exact hother
  next h => exact ⟨by simpa using h, hname⟩

theorem isIdentifier_typeName (htitle : ∀ t, title = some t → Plain t) (hkey : Plain key) :
    IsIdentifier (typeName title key) := by
  have hsource : Plain ((meaningfulTitle title).getD key) := by
    cases hm : meaningfulTitle title with
    | none => exact hkey
    | some t => exact htitle t (Option.filter_eq_some_iff.mp hm).1
  exact isIdentifier_of_default hsource.exported (by decide)

theorem isIdentifier_fieldName (h : Plain key) : IsIdentifier (fieldName key) :=
  isIdentifier_of_default h.exported (by decide)

theorem isPlain_of_mem_repr {n : Nat} : ∀ c ∈ n.repr.toList, isPlain c := by
  intro c hc
  rw [Nat.toList_repr] at hc
  have hdigit := Nat.isDigit_of_mem_toDigits (by omega) (by omega) hc
  simp [isPlain, Char.isAlphanum, hdigit]

theorem ne_empty_append {a b : String} (h : a ≠ "" ∨ b ≠ "") : a ++ b ≠ "" := by
  intro hab
  simp only [String.append_eq_empty_iff] at hab
  exact h.elim (fun ha => ha hab.1) fun hb => hb hab.2

namespace Variant

variable {qualifier : Option String} {name : String}

theorem ne_empty (h : Variant qualifier base name) (hbase : base ≠ "") : name ≠ "" := by
  cases h with
  | plain => exact hbase
  | labelled => exact ne_empty_append (.inr hbase)
  | numbered => exact ne_empty_append (.inl hbase)

theorem isIdentifier (h : Variant qualifier base name) (hbase : IsIdentifier base)
    (hlabel : ∀ t, qualifier = some t → Plain t) : IsIdentifier name := by
  refine ⟨h.ne_empty hbase.1, ?_⟩
  cases h with
  | plain => exact hbase.2
  | labelled hq =>
    rw [String.toList_append]
    exact List.forall_mem_append.mpr ⟨(hlabel _ hq).exported, hbase.2⟩
  | numbered =>
    rw [Naming.numbered, String.toList_append]
    exact List.forall_mem_append.mpr ⟨hbase.2, isPlain_of_mem_repr⟩

end Variant

theorem variant_unique (taken : List String) (base : String) :
    Variant none base (unique taken base) := by
  obtain ⟨-, h⟩ | ⟨-, n, hn, h⟩ := distinguished_unique taken base
  · rw [h]
    exact .plain
  · rw [h]
    exact .numbered hn.1.1

end Naming

open Naming (IsIdentifier Plain Variant typeName fieldName)

namespace Job

/-- The texts that the struct of a node may be named after: its title, the nearest name on the way
to it, a label of its document, and all these texts of the node above it where no name leads on from
there. -/
inductive NamedAfter (job : Job) : Location → String → Prop
  | title {l : Location} {n : Node} {t : String} (hn : job.nodeAt? l = some n)
    (ht : n.head.title = some t) : NamedAfter job l t
  | key (l : Location) : NamedAfter job l (job.targetKey l)
  | document {l : Location} {t : String} (ht : job.stem? l.document = some t) : NamedAfter job l t
  | above {l : Location} {s : Segment} {t : String} (hs : s.name? = none)
    (h : NamedAfter job l t) : NamedAfter job (l.join s) t

def PlainAt (job : Job) (l : Location) : Prop := ∀ t, job.NamedAfter l t → Plain t

variable {job : Job} {l : Location} {s : Segment}

theorem PlainAt.above (h : job.PlainAt (l.join s)) (hs : s.name? = none) : job.PlainAt l :=
  fun t ht => h t (.above hs ht)

theorem PlainAt.key (h : job.PlainAt l) : Plain (job.targetKey l) := h _ (.key l)

end Job

namespace Synthesis

variable {job : Job}

def Legible (job : Job) (s : Synthesis) : Prop :=
  ∀ d ∈ s.registry.declarations, d.name ≠ "" ∧ (job.PlainAt d.location → IsIdentifier d.name)

theorem Opens.isIdentifier {s : Synthesis} {l : Location} {key name : String} {n : Node}
    {registry : Registry} {events : List Event} (h : Opens job s n l key name registry events)
    (hkey : Plain key) (hl : job.PlainAt l) : IsIdentifier name := by
  have hbase : IsIdentifier (typeName n.head.title key) :=
    Naming.isIdentifier_typeName (fun t ht => hl t (.title h.found ht)) hkey
  exact (Registry.variant_of_declare h.unnamed h.declared).isIdentifier hbase
    fun t ht => hl t (.document ht)

theorem passes_plain {I : Synthesis → Prop} :
    Passes job I fun l key => job.PlainAt l → Plain key where
  items h _ _ hl := h (hl.above rfl)
  value h _ _ hl := h (hl.above rfl)
  target _ _ _ _ hl := hl.key
  slot := by
    intro s l key n name registry events slot h _ ho hm hl
    obtain hm | hm := List.mem_append.mp hm
    · obtain ⟨⟨property, p⟩, -, rfl⟩ := List.mem_map.mp hm
      have hkey := hl.key
      rwa [Job.targetKey_join] at hkey
    · -- Extra properties are named after their struct, which is named first.
      obtain ⟨e, -, rfl⟩ := List.mem_map.mp hm
      have hl' : job.PlainAt l := hl.above rfl
      have hvalue : IsIdentifier "Value" := by decide
      exact (ho.isIdentifier (h hl') hl').plain.append hvalue.plain

theorem keeps_legible : Keeps job (fun l key => job.PlainAt l → Plain key) (Legible job) where
  toPasses := passes_plain
  still := by
    intro s s' h hr _
    rwa [Legible, hr]
  opened := by
    intro s l key n name registry events h _ hk ho
    rw [Legible, ho.registry_opened]
    intro d hd
    obtain hd | hd := List.mem_append.mp hd
    · exact h d hd
    · obtain rfl := List.mem_singleton.mp hd
      have hv := Registry.variant_of_declare ho.unnamed ho.declared
      exact ⟨hv.ne_empty Naming.typeName_ne_empty, fun hl => ho.isIdentifier (hk hl) hl⟩
  closed := by
    intro s s' k l key n name registry events fields h _ _ _ _
    exact h

end Synthesis

def Field.WellNamed (f : Field) : Prop :=
  ∃ base, (base = fieldName f.jsonName ∨ base = "AdditionalProperties") ∧ Variant none base f.name

theorem Field.WellNamed.isIdentifier {f : Field} (h : f.WellNamed) :
    f.name ≠ "" ∧ (Plain f.jsonName → IsIdentifier f.name) := by
  obtain ⟨base, rfl | rfl, hv⟩ := h
  · refine ⟨hv.ne_empty Naming.fieldName_ne_empty, ?_⟩
    exact fun hkey => hv.isIdentifier (Naming.isIdentifier_fieldName hkey) nofun
  · have hbase : IsIdentifier "AdditionalProperties" := by decide
    exact ⟨hv.ne_empty hbase.1, fun _ => hv.isIdentifier hbase nofun⟩

theorem Slot.base_of_mem {n : Node} {name : String} {slot : Slot} (h : slot ∈ n.slots name) :
    slot.base = fieldName slot.jsonName ∨ slot.base = "AdditionalProperties" := by
  obtain h | h := List.mem_append.mp h
  · obtain ⟨p, -, rfl⟩ := List.mem_map.mp h
    exact .inl rfl
  · obtain ⟨e, -, rfl⟩ := List.mem_map.mp h
    exact .inr rfl

theorem Job.Adds.wellNamed {job : Job} {names : Location → Option String} {l : Location}
    {slots : List Slot} {fields fields' : Dict String Field}
    (h : job.Adds names l slots fields fields')
    (hslots : ∀ slot ∈ slots, slot.base = fieldName slot.jsonName ∨
      slot.base = "AdditionalProperties")
    (hf : ∀ f ∈ fields.values, f.WellNamed) : ∀ f ∈ fields'.values, f.WellNamed := by
  induction h with
  | nil => exact hf
  | @cons slot rest fields fields' τ ht h ih =>
    obtain ⟨hslot, hrest⟩ := List.forall_mem_cons.mp hslots
    refine ih hrest ?_
    have hfree := Naming.unique_not_mem fields.keys slot.base
    intro f hm
    have hm := (Dict.values_insert_perm hfree _).mem_iff.mp hm
    obtain rfl | hm := List.mem_cons.mp hm
    · exact ⟨slot.base, hslot, Naming.variant_unique _ _⟩
    · exact hf f hm

open Synthesis

/-- Names of structs and fields are never empty, and they are identifiers where the texts that they
are made of are plain. Other alphanumeric characters are kept or replaced by their upper case, and
get into the names in this way. -/
theorem compile_identifiers {job : Job} {m : StructMap} {name : String} {struct : Struct}
    (h : (compile job.options job.documents).result = .ok m) (hs : m.get? name = some struct) :
    name ≠ "" ∧
      (∃ l, (synthesizeRoots job (start job.options)).2.registry.nameOf? l = some name ∧
        job.Live l ∧ job.IsStructAt l ∧ struct.origin = job.origin l ∧
        (job.PlainAt l → IsIdentifier name)) ∧
      ∀ f ∈ struct.fields.values, f.name ≠ "" ∧ (Plain f.jsonName → IsIdentifier f.name) := by
  obtain ⟨-, s, hroots, rfl, -⟩ := compile_ok h
  have hrun : (synthesizeRoots job (start job.options)).2 = s := by
    rw [synthesizeRoots_iff.mpr hroots]
  have hlive : s.DeclaresIn job.Live := hroots.declaresIn_live (fun i => List.mem_range.mp) nofun
  have hsound : s.Sound job := (settled_of_roots hroots).sound
  have hlegible : s.Legible job :=
    keeps_legible.roots hroots (fun i => List.mem_range.mp) (fun i _ hl => hl.key) (sound_start _)
      nofun
  have hfilled : s.Filled job :=
    keeps_filled.roots hroots (fun i => List.mem_range.mp) (fun _ _ => trivial) (sound_start _)
      nofun
  obtain ⟨d, hd, rfl⟩ := Registry.mem_names.mp
    (hsound.consistent.structs name (Dict.mem_keys_iff.mpr ⟨struct, hs⟩))
  obtain ⟨hne, hname⟩ := hlegible d hd
  obtain ⟨-, n, hyields⟩ := hfilled d hd struct hs
  refine ⟨hne, ⟨d.location, ?_, hlive d hd, hsound.declared d hd, hyields.origin, hname⟩, ?_⟩
  · rw [hrun]
    exact hsound.consistent.nameOf?_of_mem hd
  · intro f hf
    have hwell := hyields.fields.wellNamed (fun _ => Slot.base_of_mem) (by simp) f hf
    exact hwell.isIdentifier

def menu (title : String) : Written :=
  { Sample.named "object" with
    title := some title
    properties := [("crème", Sample.named "string"), ("price", Sample.named "number")] }

def menus (title : String) : Job where
  documents := [{ id := "", root := (menu title).schema }]

theorem plainAt_menu : (menus "Menu").PlainAt (.root 0) := by
  intro t ht
  generalize hl : Location.root 0 = l at ht
  cases ht with
  | title hn ht =>
    have hnode : (menus "Menu").nodeAt? (.root 0) = some (menu "Menu").node := rfl
    rw [← hl, hnode] at hn
    obtain rfl := Option.some.inj hn
    obtain rfl : "Menu" = t := Option.some.inj ht
    decide +kernel
  | key =>
    rw [← hl]
    decide +kernel
  | document ht =>
    rw [← hl] at ht
    cases ht
  | above _ _ => simp [Location.root, Location.join, Pointer.root, Pointer.join] at hl

theorem menu_identifiers :
    ∃ m struct, (compile {} (menus "Menu").documents).result = .ok m ∧
      m.get? "Menu" = some struct ∧ IsIdentifier "Menu" ∧
      ∃ f ∈ struct.fields.values, f.jsonName = "price" ∧ f.name = "Price" ∧
        IsIdentifier f.name := by
  let cream : Field := ⟨"Crème", "crème", .primitive .string, false, none⟩
  let price : Field := ⟨"Price", "price", .primitive .number, false, none⟩
  obtain ⟨m, struct, h, hs, hfs⟩ : ∃ m struct,
      (compile (menus "Menu").options (menus "Menu").documents).result = .ok m ∧
      m.get? "Menu" = some struct ∧ struct.fields.values = [cream, price] :=
    exists_struct_of_values (by decide +kernel)
  obtain ⟨-, ⟨l, hl, -, -, -, hname⟩, hfields⟩ := compile_identifiers h hs
  have hdeclared : (synthesizeRoots (menus "Menu") (start {})).2.registry.declarations =
      [⟨.root 0, "Menu", "#"⟩] := by decide +kernel
  obtain ⟨d, hd, rfl, -⟩ := Registry.exists_of_nameOf? hl
  obtain rfl := List.mem_singleton.mp (hdeclared ▸ hd)
  have hprice : price ∈ struct.fields.values := by simp [hfs]
  have hplain : Plain price.jsonName := by decide +kernel
  exact ⟨m, struct, h, hs, hname plainAt_menu, price, hprice, rfl, rfl,
    (hfields price hprice).2 hplain⟩

/-- A letter beyond ASCII in a title or in a key stands in the name that comes from it. -/
theorem foreign_letters_kept :
    ∃ m struct, (compile {} (menus "Café").documents).result = .ok m ∧
      m.get? "Café" = some struct ∧ ¬ IsIdentifier "Café" ∧
      ∃ f ∈ struct.fields.values, f.name = "Crème" ∧ ¬ IsIdentifier f.name := by
  let cream : Field := ⟨"Crème", "crème", .primitive .string, false, none⟩
  let price : Field := ⟨"Price", "price", .primitive .number, false, none⟩
  obtain ⟨m, struct, h, hs, hfs⟩ : ∃ m struct,
      (compile {} (menus "Café").documents).result = .ok m ∧
      m.get? "Café" = some struct ∧ struct.fields.values = [cream, price] :=
    exists_struct_of_values (by decide +kernel)
  have hcafe : ¬ IsIdentifier "Café" := fun hname => absurd (hname.2 'é' (by decide)) (by decide)
  have hcream : ¬ IsIdentifier "Crème" := fun hname =>
    absurd (hname.2 'è' (by decide)) (by decide)
  exact ⟨m, struct, h, hs, hcafe, cream, by simp [hfs], rfl, hcream⟩

end SchemaStructs
