import SchemaStructs.Proofs.Grafting

namespace SchemaStructs

open Reference

section
variable {documents : List Document} {i : Nat} {d : Document} {p : Pointer} {name : String}

def Document.withDefinition (d : Document) (p : Pointer) (name : String) (new : Schema) :
    Document :=
  d.graft p (.definition name) (Segment.definition_ne_additional name) new

/-- The walk goes from no node to its definitions, so where no reference leads to one of them, it
sees the same documents whatever is defined there. -/
theorem Job.mirrors_withDefinition (options : Options) (new : Schema)
    (hd : documents[i]? = some d)
    (hfree : ∀ source l, pointee? documents source = some l →
      ¬ Location.Covers ⟨i, p.join (.definition name)⟩ l) :
    Job.Mirrors ⟨documents, options⟩ ⟨documents.set i (d.withDefinition p name new), options⟩
      (fun l => ¬ Location.Covers ⟨i, p.join (.definition name)⟩ l) Eq where
  options := rfl
  names := sameNames_graft hd
  root := by
    rintro j ⟨-, hp⟩
    simp [Location.root, Pointer.root, Pointer.join] at hp
  join := by
    intro l n s hl _ hs hcovers
    obtain h | h := Location.covers_join hcovers
    · exact hl h
    · obtain ⟨-, hs'⟩ := List.append_inj' (congrArg Location.pointer h) rfl
      exact hs name (List.singleton_inj.mp hs').symm
  alike := by
    intro l n n' hl hn hn'
    exact (alike_graft hd (.inr ⟨name, rfl⟩) hl hn hn').2
  found := isSome_nodeAt?_graft hd
  aim := by
    intro l n n' text text' hl hn hn' ht ht'
    have hhead := (alike_graft hd (.inr ⟨name, rfl⟩) hl hn hn').1
    rw [hhead, ht] at ht'
    cases ht'
    refine ⟨(sameNames_graft hd).aim rfl rfl _, ?_, fun _ _ => rfl⟩
    intro m hm
    exact hfree l m (pointee?_of_aim hn ht hm)
  refl := fun _ => rfl

theorem Document.ofSchema_withDefinition {source : String} {root new : Schema} {loaded : Document}
    (hname : name ≠ "") (hnew : new.node.unnamedDefinition? = none)
    (h : ofSchema source root = .ok loaded) :
    ofSchema source (root.graft p (.definition name) (Segment.definition_ne_additional name) new) =
      .ok (loaded.withDefinition p name new) := by
  generalize hgraft : root.graft p (.definition name) _ new = grafted
  have hid : declaredId? grafted = declaredId? root := by
    rw [← hgraft]
    simp [declaredId?, Schema.graft]
  unfold ofSchema at h ⊢
  dsimp only at h ⊢
  split at h
  · cases h
  · next hroot =>
    cases h
    have hnone : grafted.node.unnamedDefinition? = none := by
      rw [← hgraft]
      exact Node.unnamedDefinition?_graft hroot (by simpa using hname) hnew
    rw [hnone, hid, ← hgraft]
    rfl

end

/-- A definition that no reference points to has no influence, whatever it is: the documents still
load, and they compile to the same structs or fail with the same error. -/
theorem compile_withDefinition (options : Options) {documents : List Document} {i : Nat}
    {d : Document} {p : Pointer} {name : String} {new : Schema} (hd : documents[i]? = some d)
    (hname : name ≠ "") (hnew : new.node.unnamedDefinition? = none)
    (hfree : ∀ source l, pointee? documents source = some l →
      ¬ Location.Covers ⟨i, p.join (.definition name)⟩ l) :
    (∀ source loaded, Document.ofSchema source d.root = .ok loaded →
      Document.ofSchema source (d.withDefinition p name new).root =
        .ok (loaded.withDefinition p name new)) ∧
    (compile options (documents.set i (d.withDefinition p name new))).result =
      (compile options documents).result := by
  refine ⟨fun source loaded => Document.ofSchema_withDefinition hname hnew, ?_⟩
  obtain ⟨m, hm, hm'⟩ | ⟨e, _, rfl, he, he'⟩ :=
    (Job.mirrors_withDefinition options new hd hfree).compile
  · exact hm'.trans hm.symm
  · exact he'.trans he.symm

def broken : Written where
  reference := some "#/definitions/broken"
  definitions := [("inner", Sample.referring "elsewhere"), ("odd", Sample.named "odd")]

theorem samples_with_broken : ∃ d, samples.documents[0]? = some d ∧
    (compile {} (samples.documents.set 0 (d.withDefinition [.definition "line"] "broken"
      broken.schema))).result = (compile {} samples.documents).result := by
  have hfree : ∀ source ∈ Document.locations 0 samples.documents,
      ∀ l ∈ pointee? samples.documents source,
        ¬ Location.Covers ⟨0, Pointer.join [.definition "line"] (.definition "broken")⟩ l := by
    decide +kernel
  refine ⟨_, rfl, (compile_withDefinition {} rfl (by decide) (by decide +kernel) ?_).2⟩
  intro source l h
  exact hfree source (mem_locations_of_pointee? h) l h

end SchemaStructs
