import SchemaStructs.Proofs.Erasure
import SchemaStructs.Proofs.Grafting

namespace SchemaStructs

namespace Naming

open Text

theorem isBlank_of_isIdentifierChar {c : Char} (h : isIdentifierChar c) : isBlank c = false := by
  have hascii : ∀ n < 0x80, isIdentifierChar (Char.ofNat n) → isBlank (Char.ofNat n) = false := by
    decide +kernel
  have hapart : ∀ a ∈ alphanumericRanges, ∀ b ∈ blankRanges, a.2 < b.1 ∨ b.2 < a.1 := by
    decide +kernel
  by_cases hc : c.toNat < 0x80
  · have hchar := hascii c.toNat hc
    rw [Char.ofNat_toNat] at hchar
    exact hchar h
  · have hne : c ≠ '_' := by
      rintro rfl
      exact hc (by decide)
    simp only [isIdentifierChar, isAlphanumeric, if_neg hc, Bool.or_eq_true, List.any_eq_true,
      Bool.and_eq_true, decide_eq_true_eq, beq_iff_eq, hne, or_false] at h
    obtain ⟨a, ha, hle⟩ := h
    simp only [isBlank, List.any_eq_false, Bool.and_eq_true, decide_eq_true_eq]
    intro b hb
    have := hapart a ha b hb
    omega

theorem exists_of_exported_ne {s : String} (h : exported s ≠ "") :
    ∃ c ∈ s.toList, isIdentifierChar c := by
  have hfrom : ∀ starts cs, exportedFrom starts cs ≠ [] → ∃ c ∈ cs, isIdentifierChar c := by
    intro starts cs
    induction cs generalizing starts with
    | nil => exact fun h => absurd rfl h
    | cons c cs ih =>
      intro h
      by_cases hc : isIdentifierChar c
      · exact ⟨c, List.mem_cons_self, hc⟩
      · rw [exportedFrom, if_neg hc] at h
        obtain ⟨c', hm, hc'⟩ := ih true h
        exact ⟨c', List.mem_cons_of_mem _ hm, hc'⟩
  apply hfrom true
  intro hnil
  exact h (by rw [exported, hnil])

theorem meaningfulTitle_of_exported {title : String} (h : exported title ≠ "") :
    meaningfulTitle (some title) = some title := by
  obtain ⟨c, hm, hc⟩ := exists_of_exported_ne h
  have hany : title.toList.any (fun c => !isBlank c) = true :=
    List.any_eq_true.mpr ⟨c, hm, by simp [isBlank_of_isIdentifierChar hc]⟩
  simp [meaningfulTitle, hany]

end Naming

namespace Location

def below (l : Location) (r : Pointer) : Location := ⟨l.document, l.pointer ++ r⟩

variable {l m : Location} {r r' : Pointer}

@[simp] theorem below_nil : l.below [] = l := by
  cases l
  simp [below]

@[simp] theorem below_join (s : Segment) : (l.below r).join s = l.below (r ++ [s]) := by
  simp [below, join, Pointer.join]

theorem below_inj : l.below r = l.below r' ↔ r = r' := by
  simp [below]

theorem covers_iff : l.Covers m ↔ ∃ r, m = l.below r := by
  constructor
  · rintro ⟨hd, r, hr⟩
    refine ⟨r, ?_⟩
    cases m
    cases hd
    cases hr
    rfl
  · rintro ⟨r, rfl⟩
    exact ⟨rfl, r, rfl⟩

theorem covers_below : l.Covers (l.below r) := covers_iff.mpr ⟨r, rfl⟩

theorem covers_self : l.Covers l := ⟨rfl, List.prefix_refl _⟩

end Location

theorem Reference.nodeAt?_below {documents : List Document} {l : Location} {n : Node}
    (h : nodeAt? documents l = some n) (r : Pointer) :
    nodeAt? documents (l.below r) = n.lookup r := by
  obtain ⟨d, hd, hn⟩ := Option.bind_eq_some_iff.mp h
  rw [Document.lookup] at hn
  rw [Location.below, nodeAt?_of_document hd, Document.lookup, Node.lookup_append, hn]
  rfl

namespace Node

theorem key_of_mem_properties {key : String} {es : List (Segment × Node)}
    (hes : ∀ e ∈ es, e.1 ≠ .property key) : ∀ p ∈ es.filterMap property?, p.1 ≠ key := by
  intro p hp hkey
  obtain ⟨e, he, hs⟩ := List.mem_filterMap.mp hp
  obtain rfl := property?_eq_some_iff.mp hs
  exact hes _ he (congrArg Segment.property hkey)

theorem properties_setChild {n m : Node} {key : String} (hn : n.Canonical)
    (hm : n.child? (.property key) = some m) (c : Node) :
    ∃ before after, n.properties = before ++ (key, m) :: after ∧
      (n.setChild (.property key) c).properties = before ++ (key, c) :: after ∧
      ∀ p ∈ before ++ after, p.1 ≠ key := by
  cases n with
  | mk head children =>
    obtain ⟨before, after, hsplit, hinsert, hne⟩ := Entries.exists_split (canonical_mk.mp hn).1 hm
    refine ⟨before.filterMap property?, after.filterMap property?, ?_, ?_, ?_⟩
    · change children.filterMap property? = _
      rw [hsplit, List.filterMap_append, List.filterMap_cons]
      rfl
    · change (Entries.insert _ c children).filterMap property? = _
      rw [hinsert, List.filterMap_append, List.filterMap_cons]
      rfl
    · rw [← List.filterMap_append]
      exact key_of_mem_properties hne

theorem slots_setChild {n m : Node} {key : String} (hn : n.Canonical)
    (hm : n.child? (.property key) = some m) (c : Node) (name : String) :
    ∃ before after, n.slots name = before ++ Slot.ofProperty n (key, m) :: after ∧
      (n.setChild (.property key) c).slots name =
        before ++ Slot.ofProperty n (key, c) :: after ∧
      ∀ slot ∈ before ++ after, slot.segment ≠ .property key := by
  obtain ⟨before, after, hproperties, hproperties', hne⟩ := properties_setChild hn hm c
  have hextra : (n.setChild (.property key) c).extra? = n.extra? :=
    child?_setChild_of_ne (Segment.property_ne_additional key).symm
  have hslot : Slot.ofProperty (n.setChild (.property key) c) = Slot.ofProperty n := rfl
  refine ⟨before.map (Slot.ofProperty n),
    after.map (Slot.ofProperty n) ++ n.extra?.toList.map (Slot.ofExtra name), ?_, ?_, ?_⟩
  · simp [slots, hproperties]
  · simp [slots, hproperties', hextra, hslot]
  · rw [← List.append_assoc, ← List.map_append]
    intro slot hs
    obtain hs | hs := List.mem_append.mp hs
    · obtain ⟨p, hp, rfl⟩ := List.mem_map.mp hs
      exact fun he => hne p hp (Segment.property.inj he)
    · obtain ⟨e, -, rfl⟩ := List.mem_map.mp hs
      exact (Segment.property_ne_additional key).symm

end Node

open Reference

/-- A property of a struct whose schema is nothing but a reference, which leads to a definition of
the same document. In the definition there are no references, and no other reference points to it
or to the property, or to a place below them. -/
structure Inlining (documents : List Document) where
  index : Nat
  document : Document
  /-- The struct that has the property. -/
  host : Pointer
  key : String
  text : String
  /-- The node that has the definition. -/
  scope : Pointer
  name : String
  copy : Schema
  found : documents[index]? = some document
  isStruct : ∃ n, document.lookup host = some n ∧ n.isStruct
  bare : document.lookup (host.join (.property key)) = some (.mk { reference := some text } [])
  leads : resolve documents text index = .ok ⟨⟨index, scope.join (.definition name)⟩, copy.node⟩
  plain : ∀ r n, copy.node.lookup r = some n → n.head.reference = none
  alone : ∀ source l, source ≠ ⟨index, host.join (.property key)⟩ →
    pointee? documents source = some l →
    ¬ Location.Covers ⟨index, host.join (.property key)⟩ l ∧
      ¬ Location.Covers ⟨index, scope.join (.definition name)⟩ l
  /-- The name of the definition does not count, or it gives the same type name as the key. -/
  named : Naming.exported key = Naming.exported name ∨
    copy.node.isStruct ∧ ∃ title, copy.node.head.title = some title ∧ Naming.exported title ≠ ""

namespace Inlining

variable {documents : List Document} (x : Inlining documents)

def hostAt : Location := ⟨x.index, x.host⟩

def property : Location := x.hostAt.join (.property x.key)

def target : Location := ⟨x.index, x.scope.join (.definition x.name)⟩

def result : List Document :=
  documents.set x.index
    (x.document.graft x.host (.property x.key) (Segment.property_ne_additional _) x.copy)

theorem nodeAt?_property :
    nodeAt? documents x.property = some (.mk { reference := some x.text } []) :=
  (nodeAt?_of_document x.found).trans x.bare

theorem nodeAt?_target (r : Pointer) :
    nodeAt? documents (x.target.below r) = x.copy.node.lookup r :=
  nodeAt?_below (nodeAt?_of_resolve x.leads) r

theorem nodeAt?_copy (r : Pointer) :
    nodeAt? x.result (x.property.below r) = x.copy.node.lookup r := by
  apply nodeAt?_below
  obtain ⟨n, hn, -⟩ := x.isStruct
  have hhost : (x.document.root.node.lookup x.host).isSome := by
    rw [show x.document.root.node.lookup x.host = some n from hn]
    rfl
  exact (nodeAt?_set x.found).trans (Node.lookup_graft hhost)

/-- The definition has no references in it, so the property is not in it. -/
theorem not_target_covers_property : ¬ x.target.Covers x.property := by
  intro h
  obtain ⟨r, hr⟩ := Location.covers_iff.mp h
  have hnode := x.nodeAt?_property
  rw [hr, nodeAt?_target] at hnode
  cases x.plain r _ hnode

def Apart (l : Location) : Prop := ¬ x.property.Covers l ∧ ¬ x.target.Covers l

theorem Apart.ne_target {l : Location} (h : x.Apart l) : x.target ≠ l := by
  rintro rfl
  exact h.2 Location.covers_self

theorem apart_root (i : Nat) : x.Apart (.root i) := by
  constructor
  · rintro ⟨-, hp⟩
    simp [property, Location.join, Pointer.join, Location.root, Pointer.root] at hp
  · rintro ⟨-, hp⟩
    simp [target, Pointer.join, Location.root, Pointer.root] at hp

theorem apart_host : x.Apart x.hostAt := by
  constructor
  · rintro ⟨-, hp⟩
    have hlength := hp.length_le
    simp only [property, Location.join, Pointer.join, List.length_append,
      List.length_singleton] at hlength
    omega
  · rintro ⟨hd, hp⟩
    exact x.not_target_covers_property ⟨hd, hp.trans (List.prefix_append _ _)⟩

variable {x}

theorem Apart.join {l : Location} {s : Segment} (h : x.Apart l)
    (hs : ∀ name, s ≠ .definition name) (hne : l.join s ≠ x.property) : x.Apart (l.join s) := by
  constructor
  · intro hc
    obtain hc | hc := Location.covers_join hc
    · exact h.1 hc
    · exact hne hc.symm
  · intro hc
    obtain hc | hc := Location.covers_join hc
    · exact h.2 hc
    · obtain ⟨-, hs'⟩ := List.append_inj' (congrArg Location.pointer hc) rfl
      exact hs x.name (List.singleton_inj.mp hs').symm

theorem join_eq_property {l : Location} {s : Segment} (h : l.join s = x.property) :
    l = x.hostAt ∧ s = .property x.key := by
  obtain ⟨hd, hp⟩ := Location.mk.inj h
  obtain ⟨hp, hs⟩ := List.append_inj' hp rfl
  refine ⟨?_, List.singleton_inj.mp hs⟩
  cases l
  cases hd
  cases hp
  rfl

variable (x)

/-- Where a place is found again: places apart stay, and those in the definition have their copies
in the property. -/
inductive Moved : Location → Location → Prop
  | apart {l : Location} (h : x.Apart l) : Moved l l
  | inside (r : Pointer) : Moved (x.target.below r) (x.property.below r)

variable {x}

theorem Moved.document {l l' : Location} (h : x.Moved l l') : l'.document = l.document := by
  cases h <;> rfl

theorem Moved.eq_iff {l l' m m' : Location} (hl : x.Moved l l') (hm : x.Moved m m') :
    l' = m' ↔ l = m := by
  cases hl with
  | apart h =>
    cases hm with
    | apart h' => rfl
    | inside r =>
      constructor
      · rintro rfl
        exact absurd Location.covers_below h.1
      · rintro rfl
        exact absurd Location.covers_below h.2
  | inside r =>
    cases hm with
    | apart h' =>
      constructor
      · rintro rfl
        exact absurd Location.covers_below h'.1
      · rintro rfl
        exact absurd Location.covers_below h'.2
    | inside r' => rw [Location.below_inj, Location.below_inj]

theorem Moved.alike {l l' : Location} {n n' : Node} (h : x.Moved l l')
    (hn : nodeAt? documents l = some n) (hn' : nodeAt? x.result l' = some n') :
    n'.head = n.head ∧ n.Alike n' := by
  cases h with
  | apart h =>
    have hsome : (x.document.lookup (x.host.join (.property x.key))).isSome := by
      rw [x.bare]
      rfl
    exact alike_graft x.found (.inl hsome) h.1 hn hn'
  | inside r =>
    rw [x.nodeAt?_target] at hn
    rw [x.nodeAt?_copy] at hn'
    cases hn.symm.trans hn'
    exact ⟨rfl, .refl n⟩

def KeysAgree (n : Node) (key key' : String) : Prop :=
  Naming.exported key' = Naming.exported key ∨
    n.isStruct ∧ (Naming.meaningfulTitle n.head.title).isSome

theorem KeysAgree.typeName {n : Node} {key key' : String} (h : KeysAgree n key key') :
    Naming.typeName n.head.title key' = Naming.typeName n.head.title key := by
  unfold Naming.typeName
  cases ht : Naming.meaningfulTitle n.head.title with
  | some title => rfl
  | none =>
    obtain hkey | ⟨-, htitle⟩ := h
    · simp only [Option.getD_none, hkey]
    · rw [ht] at htitle
      cases htitle

theorem KeysAgree.of_not_isStruct {n m : Node} {key key' : String} (h : KeysAgree n key key')
    (hn : n.isStruct = false) : KeysAgree m key key' := by
  obtain hkey | ⟨hs, -⟩ := h
  · exact .inl hkey
  · rw [hn] at hs
    cases hs

variable (x)

inductive Corresponds : Location → String → Location → String → Prop
  | apart {l : Location} {key : String} (h : x.Apart l) : Corresponds l key l key
  | inside {r : Pointer} {n : Node} {key key' : String} (hn : x.copy.node.lookup r = some n)
    (hkeys : KeysAgree n key key') :
    Corresponds (x.target.below r) key (x.property.below r) key'

theorem corresponds_property (options : Options) :
    x.Corresponds x.target ((Job.mk documents options).targetKey x.target) x.property x.key := by
  have hkeys : KeysAgree x.copy.node ((Job.mk documents options).targetKey x.target) x.key := by
    have hkey : (Job.mk documents options).targetKey x.target = x.name := by
      simp [Job.targetKey, target, Pointer.key_join, Segment.name?]
    rw [hkey]
    obtain h | ⟨hs, title, htitle, hexported⟩ := x.named
    · exact .inl h
    · refine .inr ⟨hs, ?_⟩
      rw [htitle, Naming.meaningfulTitle_of_exported hexported]
      rfl
  have h := Corresponds.inside (x := x) (Node.lookup_nil _) hkeys
  rwa [Location.below_nil, Location.below_nil] at h

variable {x}

theorem Corresponds.moved {l l' : Location} {key key' : String} (h : x.Corresponds l key l' key') :
    x.Moved l l' := by
  cases h with
  | apart h => exact .apart h
  | inside => exact .inside _

end Inlining

end SchemaStructs
