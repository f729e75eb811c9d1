import Mathlib.Data.List.DropRight
import SchemaStructs.Proofs.Parallel
import SchemaStructs.Proofs.Renumbering
import SchemaStructs.Proofs.Success

namespace SchemaStructs

namespace Text

variable {cs : List Char}

theorem dropEndWhile_eq_self {p : Char → Bool} (h : ∀ c ∈ cs.getLast?, p c = false) :
    dropEndWhile p cs = cs := by
  apply List.rdropWhile_eq_self_iff.mpr
  intro hne
  rw [h _ (List.getLast_mem_getLast? hne)]
  exact Bool.false_ne_true

theorem trim_eq_self (hstart : ∀ c ∈ cs.head?, isBlank c = false)
    (hend : ∀ c ∈ cs.getLast?, isBlank c = false) : trim cs = cs := by
  have hdrop : cs.dropWhile isBlank = cs := by
    apply List.dropWhile_eq_self_iff.mpr
    intro hpos
    rw [hstart _ (List.head?_eq_getElem? ▸ List.getElem?_eq_getElem hpos)]
    exact Bool.false_ne_true
  rw [trim, hdrop, dropEndWhile_eq_self hend]

end Text

namespace Document

/-- An identity that stands in a reference as it is: nothing of it is dropped, and it ends where the
pointer begins. -/
structure Citable (id : String) : Prop where
  ne_empty : id ≠ ""
  unmarked : '#' ∉ id.toList
  starts : ∀ c ∈ id.toList.head?, Text.isBlank c = false
  ends : ∀ c ∈ id.toList.getLast?, Text.isBlank c = false

theorem Citable.normalizeId {id : String} (h : Citable id) : Document.normalizeId id = id := by
  have hmark : ∀ c ∈ id.toList.getLast?, (c == '#') = false := by
    intro c hc
    apply beq_false_of_ne
    rintro rfl
    exact h.unmarked (List.mem_of_getLast? hc)
  rw [Document.normalizeId, Text.trim_eq_self h.starts h.ends, Text.dropEndWhile_eq_self hmark,
    String.ofList_toList]

theorem Citable.isIdentifiedBy {d : Document} (h : Citable d.id) : d.isIdentifiedBy d.id := by
  simp [Document.isIdentifiedBy, h.normalizeId, h.ne_empty]

end Document

namespace Reference

open Document (Citable)

variable {documents : List Document} {d : Document} {i : Nat}

theorem split_local (fragment : String) : split ("#" ++ fragment) = ([], fragment.toList) := by
  simp [split]

theorem split_qualified {id : String} (h : '#' ∉ id.toList) (fragment : String) :
    split (id ++ "#" ++ fragment) = (id.toList, fragment.toList) := by
  have hid : ∀ c ∈ id.toList, (c != '#') = true := by
    intro c hc
    apply bne_iff_ne.mpr
    rintro rfl
    exact h hc
  simp [split, List.takeWhile_append_of_pos hid, List.dropWhile_append_of_pos hid]

theorem aim_qualified (halias : ∀ d ∈ documents, d.aliases = [])
    (hids : DistinctIds documents) (hd : documents[i]? = some d) (hc : Citable d.id) (j : Nat)
    (fragment : String) :
    aim documents (d.id ++ "#" ++ fragment) j = aim documents ("#" ++ fragment) i := by
  have hne : d.id.toList.isEmpty = false := by simpa using hc.ne_empty
  rw [aim, aim, split_local, split_qualified hc.unmarked]
  have hunique := hids.unambiguous (aliasesApart_of_nil halias)
  simp [hne, hunique.findIdx? hd hc.isIdentifiedBy]

/-- A reference to a document by its identity and one from within it agree: they lead to the same
node, or both lead nowhere for the same reason. Wherever a reference leads, the document there has
the node at its pointer. -/
theorem resolve_qualified (halias : ∀ d ∈ documents, d.aliases = [])
    (hids : repeatedId? [] documents = none) (hd : documents[i]? = some d) (hc : Citable d.id)
    (j : Nat) (fragment : String) :
    ((∃ target, resolve documents (d.id ++ "#" ++ fragment) j = .ok target ∧
        resolve documents ("#" ++ fragment) i = .ok target) ∨
      ∃ fault, resolve documents (d.id ++ "#" ++ fragment) j = .error
          (.unresolvedReference (d.id ++ "#" ++ fragment) (documentId documents j) fault) ∧
        resolve documents ("#" ++ fragment) i = .error
          (.unresolvedReference ("#" ++ fragment) (documentId documents i) fault)) ∧
      ∀ text k target, resolve documents text k = .ok target →
        ∃ d', documents[target.location.document]? = some d' ∧
          d'.lookup target.location.pointer = some target.node := by
  have haim := aim_qualified halias (repeatedId?_eq_none_iff.mp hids).2 hd hc j fragment
  constructor
  · rw [resolve_eq_aim, resolve_eq_aim, haim]
    cases aim documents ("#" ++ fragment) i with
    | error fault => exact .inr ⟨fault, rfl, rfl⟩
    | ok l =>
      cases hn : nodeAt? documents l with
      | none => exact .inr ⟨.noNode l.pointer, by simp [hn], by simp [hn]⟩
      | some n => exact .inl ⟨⟨l, n⟩, by simp [hn], by simp [hn]⟩
  · intro text k target ht
    exact Option.bind_eq_some_iff.mp (nodeAt?_of_resolve ht)

theorem customers_qualified :
    Citable "customers" ∧
      ∃ target, resolve samples.documents ("customers" ++ "#" ++ "/definitions/customer") 0 =
          .ok target ∧
        resolve samples.documents ("#" ++ "/definitions/customer") 1 = .ok target := by
  have halias : ∀ d ∈ samples.documents, d.aliases = [] := by decide +kernel
  have hids : repeatedId? [] samples.documents = none := by decide +kernel
  have hc : Citable "customers" := by
    refine ⟨by decide, by decide, ?_, ?_⟩
    · intro c hc
      obtain rfl : 'c' = c := Option.some.inj hc
      rfl
    · intro c hc
      obtain rfl : 's' = c := Option.some.inj hc
      rfl
  have hfound : (resolve samples.documents ("#" ++ "/definitions/customer") 1).isOk = true := by
    decide +kernel
  obtain ⟨htarget | ⟨fault, -, hfail⟩, -⟩ :=
    resolve_qualified halias hids (i := 1) rfl hc 0 "/definitions/customer"
  · exact ⟨hc, htarget⟩
  · rw [hfail] at hfound
    cases hfound

end Reference

end SchemaStructs
