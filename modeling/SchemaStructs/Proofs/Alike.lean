import Mathlib.Data.List.Forall2
import SchemaStructs.Proofs.Typing

namespace SchemaStructs

inductive Kind.Alike : Option Kind → Option Kind → Prop
  | shapeless : Alike none none
  | reference {text text' : String} : Alike (some (.reference text)) (some (.reference text'))
  | primitive {p : Primitive} : Alike (some (.primitive p)) (some (.primitive p))
  | any : Alike (some .any) (some .any)
  | array : Alike (some (.array none)) (some (.array none))
  | items {m m' : Node} : Alike (some (.array (some m))) (some (.array (some m')))
  | map : Alike (some (.map none)) (some (.map none))
  | value {m m' : Node} : Alike (some (.map (some m))) (some (.map (some m')))
  | struct {extra extra' : Option Node} : Alike (some (.struct extra)) (some (.struct extra'))
  | emptyObject : Alike (some .emptyObject) (some .emptyObject)

theorem isSome_eq_cases {α β : Type} {a : Option α} {b : Option β} (h : a.isSome = b.isSome) :
    (a = none ∧ b = none) ∨ ∃ x y, a = some x ∧ b = some y := by
  cases a <;> cases b <;> simp_all

theorem forall₂_mem {α β : Type} {P : α → β → Prop} {xs : List α} {ys : List β}
    (h : List.Forall₂ P xs ys) : List.Forall₂ (fun a b => a ∈ xs ∧ b ∈ ys ∧ P a b) xs ys := by
  induction h with
  | nil => exact .nil
  | cons hp _ ih =>
    refine .cons ⟨List.mem_cons_self, List.mem_cons_self, hp⟩ (ih.imp ?_)
    rintro a b ⟨ha, hb, hab⟩
    exact ⟨List.mem_cons_of_mem _ ha, List.mem_cons_of_mem _ hb, hab⟩

namespace Node

/-- Two nodes have the same keywords, up to the text of a reference, and nodes below them at the
same steps, definitions apart. -/
structure Alike (n n' : Node) : Prop where
  title : n'.head.title = n.head.title
  description : n'.head.description = n.head.description
  type : n'.head.type = n.head.type
  untypedExtra : n'.head.untypedExtra = n.head.untypedExtra
  required : n'.head.required = n.head.required
  reference : n.head.reference.isSome = n'.head.reference.isSome
  properties : n.properties.map Prod.fst = n'.properties.map Prod.fst
  items : n.items?.isSome = n'.items?.isSome
  extra : n.extra?.isSome = n'.extra?.isSome

namespace Alike

variable {n n' : Node} (h : n.Alike n')

include h

theorem typeName : n'.typeName = n.typeName := by
  simp [Node.typeName, h.type]

theorem isRequired (key : String) : n'.isRequired key = n.isRequired key := by
  simp [Node.isRequired, h.required]

theorem properties_cases : (n.properties = [] ∧ n'.properties = []) ∨
    ∃ p ps p' ps', n.properties = p :: ps ∧ n'.properties = p' :: ps' := by
  have hkeys := h.properties
  cases hp : n.properties <;> cases hp' : n'.properties <;> simp_all

theorem objectKind : Kind.Alike (some n.objectKind) (some n'.objectKind) := by
  unfold Node.objectKind
  rw [h.untypedExtra]
  obtain ⟨hp, hp'⟩ | ⟨p, ps, p', ps', hp, hp'⟩ := h.properties_cases
  · obtain ⟨he, he'⟩ | ⟨e, e', he, he'⟩ := isSome_eq_cases h.extra
    · simp only [hp, hp', he, he']
      split
      · exact .map
      · exact .emptyObject
    · simp only [hp, hp', he, he']
      exact .value
  · simp only [hp, hp']
    exact .struct

theorem structuralKind? : Kind.Alike n.structuralKind? n'.structuralKind? := by
  have hempty : n'.properties.isEmpty = n.properties.isEmpty := by
    obtain ⟨hp, hp'⟩ | ⟨p, ps, p', ps', hp, hp'⟩ := h.properties_cases <;> simp [hp, hp']
  have hextra : n'.extra?.isNone = n.extra?.isNone := by
    rw [← Option.not_isSome, ← Option.not_isSome, h.extra]
  unfold Node.structuralKind?
  rw [hempty, hextra, h.untypedExtra]
  obtain ⟨hi, hi'⟩ | ⟨m, m', hi, hi'⟩ := isSome_eq_cases h.items
  · simp only [hi, hi']
    split
    · exact .shapeless
    · exact h.objectKind
  · simp only [hi, hi']
    exact .items

theorem kind? : Kind.Alike n.kind? n'.kind? := by
  unfold Node.kind?
  rw [h.typeName]
  obtain ⟨hr, hr'⟩ | ⟨text, text', hr, hr'⟩ := isSome_eq_cases h.reference
  · simp only [hr, hr']
    split
    · exact .primitive
    split
    · obtain ⟨hi, hi'⟩ | ⟨m, m', hi, hi'⟩ := isSome_eq_cases h.items
      · rw [hi, hi']
        exact .array
      · rw [hi, hi']
        exact .items
    split
    · exact h.objectKind
    split
    · have hs := h.structuralKind?
      generalize n.structuralKind? = k, n'.structuralKind? = k' at hs
      cases hs <;> constructor
    · exact h.structuralKind?
  · simp only [hr, hr']
    exact .reference

theorem isStruct : n'.isStruct = n.isStruct := by
  have hk := h.kind?
  unfold Node.isStruct
  generalize n.kind? = k, n'.kind? = k' at hk
  cases hk <;> rfl

end Alike

end Node

def Slot.Matches (a b : Slot) : Prop :=
  b = { a with node := b.node } ∧ b.node.head.description = a.node.head.description

theorem Slot.Matches.add {a b : Slot} (h : a.Matches b) : b.add = a.add := by
  obtain ⟨hb, hd⟩ := h
  rw [hb]
  funext fields τ
  simp [Slot.add, hd]

theorem Node.Alike.slots {n n' : Node} (h : n.Alike n') (name : String) :
    List.Forall₂ (fun a b : Slot => b = { a with node := b.node })
      (n.slots name) (n'.slots name) := by
  apply List.rel_append
  · apply List.forall₂_map_left_iff.mpr
    apply List.forall₂_map_right_iff.mpr
    have hkeys : List.Forall₂ (fun p p' : String × Node => p.1 = p'.1)
        n.properties n'.properties := by
      rw [← List.forall₂_map_right_iff, ← List.forall₂_map_left_iff, h.properties]
      exact List.forall₂_refl _
    refine hkeys.imp ?_
    intro p p' hp
    simp [Slot.ofProperty, hp, h.isRequired]
  · obtain ⟨he, he'⟩ | ⟨e, e', he, he'⟩ := isSome_eq_cases h.extra
    · simp [he, he']
    · simp [he, he', Slot.ofExtra]

end SchemaStructs
