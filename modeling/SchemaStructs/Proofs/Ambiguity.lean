import SchemaStructs.Document.Load
import SchemaStructs.Proofs.Qualified

namespace SchemaStructs

namespace Document

inductive Loaded : Document → Prop
  | text {source text : String} {d : Document} (h : ofText source text = .ok d) : Loaded d
  | file {name : String} {content : FileContent} {d : Document} (h : ofFile name content = .ok d) :
    Loaded d
  | addAlias {d : Document} (h : Loaded d) (name : String) : Loaded (d.addAlias name)

structure Normal (d : Document) : Prop where
  text : ∀ id ∈ d.identities, ∃ text, normalizeId text = id
  alias_ne : ∀ id ∈ d.aliases, id ≠ ""

variable {d d' : Document} {source name : String}

theorem exists_text_id (source : String) (root : Schema) :
    ∃ text, normalizeId text = (declaredId? root).getD (normalizeId source) := by
  cases hd : declaredId? root with
  | none => exact ⟨source, rfl⟩
  | some id =>
    obtain ⟨hmap, -⟩ := Option.filter_eq_some_iff.mp hd
    obtain ⟨declared, -, hdeclared⟩ := Option.map_eq_some_iff.mp hmap
    exact ⟨declared, hdeclared⟩

theorem normal_of_ofSchema {root : Schema} (h : ofSchema source root = .ok d) : d.Normal := by
  unfold ofSchema at h
  dsimp only at h
  split at h
  · cases h
  · cases h
    constructor
    · simpa [identities] using exists_text_id source root
    · simp

theorem normal_of_ofText {text : String} (h : ofText source text = .ok d) : d.Normal := by
  cases hroot : Schema.ofText text with
  | error e =>
    rw [ofText, hroot] at h
    cases h
  | ok root =>
    rw [ofText, hroot] at h
    exact normal_of_ofSchema h

theorem Normal.addAlias (h : d.Normal) (name : String) : (d.addAlias name).Normal := by
  unfold Document.addAlias
  dsimp only
  split
  next => exact h
  next hnew =>
    have hne : normalizeId name ≠ "" := by
      intro he
      simp [he] at hnew
    constructor
    · intro id hid
      obtain hid | hid : id ∈ d.identities ∨ id = normalizeId name := by
        simpa [identities, or_assoc] using hid
      · exact h.text id hid
      · exact ⟨name, hid.symm⟩
    · intro id hid
      obtain hid | hid : id ∈ d.aliases ∨ id = normalizeId name := by simpa using hid
      · exact h.alias_ne id hid
      · exact hid ▸ hne

theorem exists_of_ofFile {content : FileContent} (h : ofFile name content = .ok d) :
    ∃ text loaded, ofText (fileStem name) text = .ok loaded ∧ loaded.addAlias name = d := by
  cases htext : content.text with
  | error e =>
    rw [ofFile, htext] at h
    cases h
  | ok text =>
    rw [ofFile, htext] at h
    change (ofText (fileStem name) text >>= fun d => pure (d.addAlias name)) = .ok d at h
    cases hd : ofText (fileStem name) text with
    | error e =>
      rw [hd] at h
      cases h
    | ok loaded =>
      rw [hd] at h
      exact ⟨text, loaded, hd, Except.ok.inj h⟩

theorem Loaded.normal (h : d.Loaded) : d.Normal := by
  induction h with
  | text h => exact normal_of_ofText h
  | @file name _ _ h =>
    obtain ⟨text, loaded, hd, rfl⟩ := exists_of_ofFile h
    exact (normal_of_ofText hd).addAlias name
  | addAlias _ name ih => exact ih.addAlias name

theorem Normal.disjoint_iff (h : d.Normal) :
    (∀ text, d.isIdentifiedBy text → ¬ d'.isIdentifiedBy text) ↔
      ∀ id ∈ d.identities, id ∈ d'.identities → id = "" := by
  constructor
  · intro hnone id hid hid'
    by_contra hne
    obtain ⟨text, rfl⟩ := h.text id hid
    exact hnone text (isIdentifiedBy_iff.mpr ⟨hne, hid⟩) (isIdentifiedBy_iff.mpr ⟨hne, hid'⟩)
  · intro hshared text hd hd'
    obtain ⟨hne, hid⟩ := isIdentifiedBy_iff.mp hd
    exact hne (hshared _ hid (isIdentifiedBy_iff.mp hd').2)

theorem exists_of_names {r : Except LoadError Document} {id : String} {aliases : List String}
    (h : r.map (fun d => (d.id, d.aliases)) = .ok (id, aliases)) :
    ∃ d, r = .ok d ∧ d.id = id ∧ d.aliases = aliases := by
  obtain ⟨d, hd, hnames⟩ := Synth.map_eq_ok h
  exact ⟨d, hd, Prod.mk.inj hnames⟩

end Document

open Document (Loaded ofFile exists_of_names)

variable {documents : List Document}

theorem unambiguous_iff (hl : ∀ d ∈ documents, d.Loaded) :
    Unambiguous documents ↔ repeatedId? [] documents = none ∧ AliasesApart documents := by
  have hcheck : repeatedId? [] documents = none ↔ DistinctIds documents := by
    simp [repeatedId?_eq_none_iff, DistinctIds]
  rw [hcheck]
  constructor
  · intro h
    apply List.pairwise_and_iff.mp
    refine List.Pairwise.imp_of_mem ?_ h
    intro d d' hd hd' hnone
    have hshared := (hl d hd).normal.disjoint_iff.mp hnone
    refine ⟨?_, ?_, ?_⟩
    · intro heq
      exact hshared d.id List.mem_cons_self (heq ▸ List.mem_cons_self)
    · intro id hid hid'
      exact (hl d hd).normal.alias_ne id hid (hshared id (List.mem_cons_of_mem _ hid) hid')
    · intro id hid' hid
      exact (hl d' hd').normal.alias_ne id hid' (hshared id hid (List.mem_cons_of_mem _ hid'))
  · rintro ⟨hids, ha⟩
    exact hids.unambiguous ha

namespace Reference

theorem resolve_cons {d : Document} {text : String} (hd : d.isIdentifiedBy text)
    (ht : '#' ∉ text.toList) (i : Nat) :
    resolve (d :: documents) (text ++ "#" ++ "") i = .ok ⟨.root 0, d.root.node⟩ := by
  have hne : text.toList ≠ [] := by
    rintro he
    rw [String.toList_eq_nil_iff.mp he] at hd
    cases hd
  have hroot : nodeAt? (d :: documents) ⟨0, .root⟩ = some d.root.node := by
    simp [nodeAt?, Document.lookup, Pointer.root]
  simp only [resolve, split_qualified ht]
  simp [hne, hd, hroot, List.findIdx?_cons, Location.root, Pointer.ofFragment?]

/-- Where documents come from texts and files, no text identifies two of them exactly if the check
for repeated identities passes and no alias is an identity of another document. Then the order of
the documents has no part in where a reference leads. -/
theorem resolve_unambiguous (hl : ∀ d ∈ documents, d.Loaded) :
    (Unambiguous documents ↔ repeatedId? [] documents = none ∧ AliasesApart documents) ∧
      (Unambiguous documents → ∀ documents', documents.Perm documents' →
        ∃ σ : Nat → Nat, σ.Injective ∧ (∀ i, documents'[σ i]? = documents[i]?) ∧
          ∀ text i, resolve documents' text (σ i) =
            (resolve documents text i).map (Target.renumber σ)) := by
  refine ⟨unambiguous_iff hl, ?_⟩
  intro h documents' hp
  obtain ⟨σ, hinj, hσ⟩ := exists_renumbering hp
  exact ⟨σ, hinj, hσ, resolve_renumber hσ (h.findIdx?_perm hp hσ)⟩

theorem exists_address :
    ∃ d, ofFile "address.json" (.bytes "\x7b\x7d".toUTF8) = .ok d ∧ d.id = "address" ∧
      d.aliases = ["address.json"] :=
  exists_of_names (by decide +kernel)

theorem files_unambiguous :
    ∃ address person : Document,
      ofFile "address.json" (.bytes "\x7b\x7d".toUTF8) = .ok address ∧
      ofFile "person.json" (.bytes "\x7b\x7d".toUTF8) = .ok person ∧
      Unambiguous [address, person] ∧
      ∃ σ : Nat → Nat, σ.Injective ∧ (∀ i, [person, address][σ i]? = [address, person][i]?) ∧
        ∀ text i, resolve [person, address] text (σ i) =
          (resolve [address, person] text i).map (Target.renumber σ) := by
  have hperson : ∃ d, ofFile "person.json" (.bytes "\x7b\x7d".toUTF8) = .ok d ∧ d.id = "person" ∧
      d.aliases = ["person.json"] := exists_of_names (by decide +kernel)
  obtain ⟨address, haddress, hid, halias⟩ := exists_address
  obtain ⟨person, hperson, hid', halias'⟩ := hperson
  have hl : ∀ d ∈ [address, person], d.Loaded := by
    simpa using ⟨Loaded.file haddress, Loaded.file hperson⟩
  have hcheck : repeatedId? [] [address, person] = none := by simp [repeatedId?, hid, hid']
  have hapart : AliasesApart [address, person] := by
    simp [AliasesApart, Document.identities, hid, hid', halias, halias']
  obtain ⟨hiff, horder⟩ := resolve_unambiguous hl
  have hunique := hiff.mpr ⟨hcheck, hapart⟩
  exact ⟨address, person, haddress, hperson, hunique, horder hunique _ (.swap _ _ _)⟩

/-- The check for repeated identities lets an alias pass that another document declares as its
identity. A reference by it leads to whichever document comes first. -/
theorem alias_repeats_declared_id :
    ∃ address place : Document,
      ofFile "address.json" (.bytes "\x7b\x7d".toUTF8) = .ok address ∧
      ofFile "place.json" (.bytes "\x7b\"$id\":\"address.json\"\x7d".toUTF8) = .ok place ∧
      repeatedId? [] [address, place] = none ∧
      address.isIdentifiedBy "address.json" ∧ place.isIdentifiedBy "address.json" ∧
      address.id ≠ place.id ∧ ∀ i,
        resolve [address, place] "address.json#" i = .ok ⟨.root 0, address.root.node⟩ ∧
        resolve [place, address] "address.json#" i = .ok ⟨.root 0, place.root.node⟩ := by
  have hplace : ∃ d,
      ofFile "place.json" (.bytes "\x7b\"$id\":\"address.json\"\x7d".toUTF8) = .ok d ∧
      d.id = "address.json" ∧ d.aliases = [] := exists_of_names (by decide +kernel)
  obtain ⟨address, haddress, hid, halias⟩ := exists_address
  obtain ⟨place, hplace, hid', -⟩ := hplace
  have hcheck : repeatedId? [] [address, place] = none := by simp [repeatedId?, hid, hid']
  have hnormal : Document.normalizeId "address.json" = "address.json" := by decide +kernel
  have hident : address.isIdentifiedBy "address.json" := by
    simp [Document.isIdentifiedBy_iff, Document.identities, hnormal, halias]
  have hident' : place.isIdentifiedBy "address.json" := by
    simp [Document.isIdentifiedBy_iff, Document.identities, hnormal, hid']
  have hunmarked : '#' ∉ "address.json".toList := by decide
  refine ⟨address, place, haddress, hplace, hcheck, hident, hident', by simp [hid, hid'], ?_⟩
  intro i
  exact ⟨resolve_cons hident hunmarked i, resolve_cons hident' hunmarked i⟩

end Reference

end SchemaStructs
