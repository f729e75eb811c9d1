import SchemaStructs.Proofs.Preservation

namespace SchemaStructs

namespace Naming

/-- A title that counts is the only thing that a type is named after. -/
theorem typeName_of_title {title : Option String} (h : meaningfulTitle title ≠ none)
    (key key' : String) : typeName title key = typeName title key' := by
  obtain ⟨t, ht⟩ := Option.ne_none_iff_exists'.mp h
  simp [typeName, ht]

/-- The names that a node may have which asks for `base`: that name itself, or the same with a label
of its document in front, or with a number behind. -/
inductive Variant (qualifier : Option String) (base : String) : String → Prop
  | plain : Variant qualifier base base
  | labelled {label : String} (h : qualifier = some label) :
    Variant qualifier base (exported label ++ base)
  | numbered {n : Nat} (h : 2 ≤ n) : Variant qualifier base (numbered base n)

end Naming

open Naming (Variant typeName meaningfulTitle)

namespace Registry

variable {r r' : Registry} {l : Location} {base origin name : String}
  {qualifier : Option String} {events : List Event}

theorem variant_disambiguate (owner : Declaration) :
    Variant qualifier base (r.disambiguate owner l base qualifier) := by
  unfold disambiguate
  dsimp only
  split
  next h =>
    cases qualifier with
    | none => simp at h
    | some label => exact .labelled rfl
  next =>
    obtain ⟨n, hn, heq⟩ := Naming.exists_isLeast_renumbered r.names base
    rw [heq]
    exact .numbered hn.1.1

theorem variant_of_declare (hl : r.nameOf? l = none)
    (h : r.declare l base origin qualifier = .ok (name, r', events)) :
    Variant qualifier base name := by
  simp only [declare, hl] at h
  split at h
  next =>
    cases h
    exact .plain
  next owner _ =>
    split at h
    next => cases h
    next =>
      cases h
      exact variant_disambiguate owner

end Registry

theorem Reference.exists_target {documents : List Document} {text : String} {i : Nat}
    {l : Location}
    (h : (resolve documents text i).toOption.map Target.location = some l) :
    ∃ target, resolve documents text i = .ok target ∧ target.location = l := by
  obtain ⟨target, ht, hl⟩ := Option.map_eq_some_iff.mp h
  exact ⟨target, Synth.eq_ok_of_toOption ht, hl⟩

namespace Job

/-- The keys that nodes are walked with, whatever names structs have. A list and a map hand on their
own key, a property has its name for a key, and extra properties are named after their struct. A
reference names its target by the way to it. -/
inductive Handed (job : Job) : Location → String → Prop
  | root {i : Nat} (hi : i < job.documents.length) : Handed job (.root i) (job.rootKey i)
  | items {l : Location} {key : String} {n m : Node} (h : Handed job l key)
    (hn : job.nodeAt? l = some n) (hk : n.kind? = some (.array (some m))) :
    Handed job (l.join .items) key
  | value {l : Location} {key : String} {n m : Node} (h : Handed job l key)
    (hn : job.nodeAt? l = some n) (hk : n.kind? = some (.map (some m))) :
    Handed job (l.join .additional) key
  | property {l : Location} {key name : String} {n p : Node} (h : Handed job l key)
    (hn : job.nodeAt? l = some n) (hs : n.isStruct) (hp : (name, p) ∈ n.properties) :
    Handed job (l.join (.property name)) name
  | extra {l : Location} {key : String} {n e : Node} (h : Handed job l key)
    (hn : job.nodeAt? l = some n) (hs : n.isStruct) (he : n.extra? = some e) (name : String) :
    Handed job (l.join .additional) (name ++ "Value")
  | reference {l : Location} {key text : String} {n : Node} {target : Target}
    (h : Handed job l key) (hn : job.nodeAt? l = some n) (hk : n.kind? = some (.reference text))
    (ht : Reference.resolve job.documents text l.document = .ok target) :
    Handed job target.location (job.targetKey target.location)

/-- The extra properties of a struct, and what lists and maps there are made of. -/
inductive InExtra (job : Job) : Location → Prop
  | extra {l : Location} (hs : job.IsStructAt l) : InExtra job (l.join .additional)
  | items {l : Location} (h : InExtra job l) : InExtra job (l.join .items)
  | value {l : Location} (h : InExtra job l) : InExtra job (l.join .additional)

variable {job job' : Job} {l : Location} {key : String} {n : Node}

theorem targetKey_join (l : Location) (s : Segment) :
    job.targetKey (l.join s) = s.name?.getD (job.targetKey l) := by
  simp only [targetKey, Location.join, Pointer.key_join]
  cases s.name? <;> rfl

theorem targetKey_of_rootKey (h : job'.rootKey l.document = job.rootKey l.document) :
    job'.targetKey l = job.targetKey l := by
  simp only [targetKey, h]

/-- On every way to a node the key is the one that a reference gives it. Only the name of a struct,
handed down to its extra properties, is unknown to references. -/
theorem Handed.eq_targetKey_or (h : job.Handed l key) :
    key = job.targetKey l ∨ job.InExtra l ∧ ∃ name, key = name ++ "Value" := by
  induction h with
  | root hi => exact .inl rfl
  | items _ hn hk ih =>
    rw [targetKey_join]
    exact ih.imp_right fun ⟨hx, hname⟩ => ⟨.items hx, hname⟩
  | value _ hn hk ih =>
    rw [targetKey_join]
    exact ih.imp_right fun ⟨hx, hname⟩ => ⟨.value hx, hname⟩
  | property _ hn hs hp _ =>
    rw [targetKey_join]
    exact .inl rfl
  | extra _ hn hs he name _ => exact .inr ⟨.extra ⟨_, hn, hs⟩, name, rfl⟩
  | reference _ hn hk ht _ => exact .inl rfl

theorem InExtra.additional_mem (h : job.InExtra l) : .additional ∈ l.pointer := by
  induction h with
  | extra hs => simp [Location.join, Pointer.join]
  | items _ ih => simpa [Location.join, Pointer.join] using ih
  | value _ ih => simp [Location.join, Pointer.join]

/-- A node is named after its title, or no struct hands its name down to it. -/
def PlainlyNamed (job : Job) (l : Location) (n : Node) : Prop :=
  meaningfulTitle n.head.title ≠ none ∨ ¬ job.InExtra l

theorem Handed.typeName_eq (h : job.Handed l key) (hp : job.PlainlyNamed l n) :
    typeName n.head.title key = typeName n.head.title (job.targetKey l) := by
  obtain htitle | hx := hp
  · exact Naming.typeName_of_title htitle _ _
  · obtain rfl | ⟨hx', -⟩ := h.eq_targetKey_or
    · rfl
    · exact absurd hx' hx

end Job

namespace Synthesis

variable {job : Job}

def Asked (job : Job) (s : Synthesis) : Prop :=
  ∀ d ∈ s.registry.declarations, ∃ n key, job.nodeAt? d.location = some n ∧
    job.Handed d.location key ∧
    Variant (job.stem? d.location.document) (typeName n.head.title key) d.name

theorem passes_handed {I : Synthesis → Prop} : Passes job I job.Handed where
  items h hn hk := .items h hn hk
  value h hn hk := .value h hn hk
  target h hn hk ht := .reference h hn hk ht
  slot := by
    intro s l key n name registry events slot h _ ho hm
    obtain hm | hm := List.mem_append.mp hm
    · obtain ⟨⟨name, p⟩, hp, rfl⟩ := List.mem_map.mp hm
      exact .property h ho.found ho.isStruct hp
    · obtain ⟨e, he, rfl⟩ := List.mem_map.mp hm
      exact .extra h ho.found ho.isStruct (Option.mem_toList.mp he) name

theorem keeps_asked : Keeps job job.Handed (Asked job) where
  toPasses := passes_handed
  still := by
    intro s s' h hr _
    rwa [Asked, hr]
  opened := by
    intro s l key n name registry events hi _ hk ho
    rw [Asked, ho.registry_opened]
    intro d hd
    obtain hd | hd := List.mem_append.mp hd
    · exact hi d hd
    · obtain rfl := List.mem_singleton.mp hd
      exact ⟨n, key, ho.found, hk, Registry.variant_of_declare ho.unnamed ho.declared⟩
  closed := by
    intro s s' k l key n name registry events fields hi _ _ _ _
    exact hi

theorem asked_of_synthesizeRoots :
    (synthesizeRoots job (start job.options)).2.Asked job := by
  have hroots := synthesizeRoots_iff.mp (rfl : synthesizeRoots job (start job.options) = _)
  exact keeps_asked.roots hroots (fun i => List.mem_range.mp) (fun i => .root) (sound_start _) nofun

end Synthesis

open Synthesis

/-- Whichever way leads to a struct first, it asks for one name: the one that a reference to it
would ask for. In other documents that keep its title and the key of its root it asks for that name
too, whatever references they have, as long as it is plainly named in them as well. The exception is
a struct without a title in the extra properties of another one: walked from there it is named after
the other struct, and by a reference after the nearest name on the way from the root. -/
theorem base_name_independent {job : Job} {l : Location} {n : Node}
    (hn : job.nodeAt? l = some n) :
    (∀ key, job.Handed l key →
      key = job.targetKey l ∨ job.InExtra l ∧ ∃ name, key = name ++ "Value") ∧
    (job.PlainlyNamed l n →
      (∀ key, job.Handed l key →
        typeName n.head.title key = typeName n.head.title (job.targetKey l)) ∧
      (∀ d ∈ (synthesizeRoots job (start job.options)).2.registry.declarations, d.location = l →
        Variant (job.stem? l.document) (typeName n.head.title (job.targetKey l)) d.name) ∧
      ∀ (job' : Job) (n' : Node), job'.nodeAt? l = some n' → n'.head.title = n.head.title →
        job'.rootKey l.document = job.rootKey l.document → job'.PlainlyNamed l n' →
        ∀ key, job'.Handed l key →
          typeName n'.head.title key = typeName n.head.title (job.targetKey l)) := by
  refine ⟨fun key => Job.Handed.eq_targetKey_or, ?_⟩
  intro hp
  refine ⟨fun key hk => hk.typeName_eq hp, ?_, ?_⟩
  · rintro d hd rfl
    obtain ⟨n', key, hn', hk, hv⟩ := asked_of_synthesizeRoots d hd
    obtain rfl := Option.some.inj (hn'.symm.trans hn)
    rwa [hk.typeName_eq hp] at hv
  · intro job' n' _ htitle hroot hp' key hk
    rw [hk.typeName_eq hp', htitle, Job.targetKey_of_rootKey hroot]

namespace Sample

def line : Written := named "object"

def shipment : Written :=
  { named "object" with
    properties :=
      [("first", referring "#/properties/lines/items"),
        ("lines", { named "array" with items := some line })] }

def bag (property : Written) : Written :=
  { named "object" with
    title := some "Bag"
    properties := [("first", property)]
    additional := some (.inr line) }

end Sample

open Sample (shipment bag line named referring)

def shipments : Job where
  documents := [{ id := "shipments", root := shipment.schema }]

theorem lines_named_alike :
    let here := ((Location.root 0).join (.property "lines")).join .items
    shipments.nodeAt? here = some line.node ∧ shipments.Handed here "lines" ∧
      typeName line.node.head.title "lines" =
        typeName line.node.head.title (shipments.targetKey here) ∧
      ∃ d ∈ (synthesizeRoots shipments (start shipments.options)).2.registry.declarations,
        d.location = here ∧ Variant (some "shipments") "Lines" d.name := by
  intro here
  have hlist : shipments.Handed ((Location.root 0).join (.property "lines")) "lines" :=
    .property (n := shipment.node) (p := { named "array" with items := some line }.node)
      (.root (by decide)) (by decide +kernel) (by decide +kernel) (by decide +kernel)
  have hline : shipments.Handed here "lines" :=
    .items (n := { named "array" with items := some line }.node) (m := line.node) hlist
      (by decide +kernel) (by decide +kernel)
  have hn : shipments.nodeAt? here = some line.node := by decide +kernel
  have hplain : shipments.PlainlyNamed here line.node :=
    .inr fun hx => absurd hx.additional_mem (by decide)
  obtain ⟨hkeys, hnames, -⟩ := (base_name_independent hn).2 hplain
  have hmade : ∃ d ∈ (synthesizeRoots shipments (start shipments.options)).2.registry.declarations,
      d.location = here := by decide +kernel
  obtain ⟨d, hd, hloc⟩ := hmade
  have hbase : typeName line.node.head.title (shipments.targetKey here) = "Lines" := by
    decide +kernel
  have hstem : shipments.stem? here.document = some "shipments" := by decide +kernel
  have hv := hnames d hd hloc
  rw [hbase, hstem] at hv
  exact ⟨hn, hline, hkeys _ hline, d, hd, hloc, hv⟩

def bags (property : Written) : Job where
  documents := [{ id := "inventory", root := (bag property).schema }]

/-- A record in a bag has one name where a reference leads to it before the walk of the bag does,
and another name where there is no reference. -/
theorem reference_renames_extra :
    let job := bags (referring "#/additionalProperties")
    let here := (Location.root 0).join .additional
    job.nodeAt? here = some line.node ∧ line.node.isStruct ∧
      job.Handed here ("Bag" ++ "Value") ∧ job.Handed here (job.targetKey here) ∧
      typeName line.node.head.title ("Bag" ++ "Value") ≠
        typeName line.node.head.title (job.targetKey here) ∧
      (∃ m, (compile {} job.documents).result = .ok m ∧ m.keys = ["Bag", "Inventory"]) ∧
      ∃ m, (compile {} (bags (named "string")).documents).result = .ok m ∧
        m.keys = ["Bag", "BagValue"] := by
  intro job here
  let root := (bag (referring "#/additionalProperties")).node
  have hroot : job.nodeAt? (.root 0) = some root := by decide +kernel
  have hstruct : root.isStruct := by decide +kernel
  have hwalked : job.Handed (.root 0) (job.rootKey 0) := .root (by decide)
  have hextra : job.Handed here ("Bag" ++ "Value") :=
    .extra (e := line.node) hwalked hroot hstruct (by decide +kernel) "Bag"
  have hfirst : job.Handed ((Location.root 0).join (.property "first")) "first" :=
    .property (p := (referring "#/additionalProperties").node) hwalked hroot hstruct
      (by decide +kernel)
  have htarget : job.Handed here (job.targetKey here) := by
    obtain ⟨target, ht, hloc⟩ : ∃ target,
        Reference.resolve job.documents "#/additionalProperties" 0 = .ok target ∧
          target.location = here := Reference.exists_target (by decide +kernel)
    rw [← hloc]
    exact .reference (n := (referring "#/additionalProperties").node) hfirst (by decide +kernel)
      (by decide +kernel) ht
  refine ⟨by decide +kernel, by decide +kernel, hextra, htarget, by decide +kernel, ?_, ?_⟩
  · exact exists_ok_of_keys (by decide +kernel)
  · exact exists_ok_of_keys (by decide +kernel)

end SchemaStructs
