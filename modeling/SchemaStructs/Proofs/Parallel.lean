import SchemaStructs.Proofs.Agreement

namespace SchemaStructs

namespace Reference

/-- The place that a reference points to, whether a node is there or not. -/
def aim (documents : List Document) (reference : String) (current : Nat) :
    Except ReferenceFault Location :=
  let (identity, fragment) := split reference
  let document :=
    if identity.isEmpty then some current
    else documents.findIdx? fun d => d.isIdentifiedBy (String.ofList identity)
  match document with
  | none => .error (.unknownIdentity (String.ofList identity))
  | some document =>
    match Pointer.ofFragment? fragment with
    | none => .error .unsupportedSyntax
    | some pointer => .ok ⟨document, pointer⟩

variable {documents documents' : List Document} {text text' : String} {i : Nat}

theorem resolve_eq_aim : resolve documents text i =
    match aim documents text i with
    | .error fault => .error (.unresolvedReference text (documentId documents i) fault)
    | .ok l =>
      match nodeAt? documents l with
      | none => .error (.unresolvedReference text (documentId documents i) (.noNode l.pointer))
      | some node => .ok ⟨l, node⟩ := by
  unfold resolve aim
  dsimp only
  cases (if (split text).1.isEmpty then some i
    else documents.findIdx? fun d => d.isIdentifiedBy (String.ofList (split text).1)) with
  | none => rfl
  | some j =>
    cases Pointer.ofFragment? (split text).2 with
    | none => rfl
    | some p => rfl

theorem aim_of_resolve {target : Target} (h : resolve documents text i = .ok target) :
    aim documents text i = .ok target.location := by
  rw [resolve_eq_aim] at h
  split at h
  · cases h
  · next l haim =>
    split at h
    · cases h
    · cases h
      exact haim

/-- References that point to one place resolve alike, if there is a node for both or for none. -/
theorem resolve_cases (haim : aim documents' text' i = aim documents text i)
    (hid : documentId documents' i = documentId documents i)
    (hfound : ∀ l, aim documents text i = .ok l →
      (nodeAt? documents l).isSome = (nodeAt? documents' l).isSome) :
    (∃ target target', resolve documents text i = .ok target ∧
      resolve documents' text' i = .ok target' ∧ target'.location = target.location) ∨
    ∃ fault, resolve documents text i =
        .error (.unresolvedReference text (documentId documents i) fault) ∧
      resolve documents' text' i =
        .error (.unresolvedReference text' (documentId documents i) fault) := by
  rw [resolve_eq_aim, resolve_eq_aim, haim, hid]
  cases hl : aim documents text i with
  | error fault => exact .inr ⟨fault, rfl, rfl⟩
  | ok l =>
    obtain ⟨hn, hn'⟩ | ⟨n, n', hn, hn'⟩ := isSome_eq_cases (hfound l hl)
    · simp only [hn, hn']
      exact .inr ⟨.noNode l.pointer, rfl, rfl⟩
    · simp only [hn, hn']
      exact .inl ⟨_, _, rfl, rfl, rfl⟩

end Reference

def Document.names (d : Document) : String × List String := (d.id, d.aliases)

def SameNames (documents documents' : List Document) : Prop :=
  documents'.map Document.names = documents.map Document.names

namespace SameNames

variable {documents documents' : List Document} (h : SameNames documents documents')

include h

theorem length_eq : documents'.length = documents.length := by
  simpa using congrArg List.length h

theorem names_getElem? (i : Nat) :
    documents'[i]?.map Document.names = documents[i]?.map Document.names := by
  simpa using congrArg (·[i]?) h

theorem id_getElem? (i : Nat) :
    documents'[i]?.map Document.id = documents[i]?.map Document.id := by
  have hids := congrArg (Option.map Prod.fst) (h.names_getElem? i)
  rwa [Option.map_map, Option.map_map] at hids

theorem documentId (i : Nat) :
    Reference.documentId documents' i = Reference.documentId documents i := by
  rw [Reference.documentId, h.id_getElem?]
  rfl

theorem stem? (i : Nat) : documents'[i]?.bind Document.stem = documents[i]?.bind Document.stem := by
  have hid := h.id_getElem? i
  cases hd : documents[i]? with
  | none => simp_all
  | some d =>
    obtain ⟨d', hd', hsame⟩ : ∃ d', documents'[i]? = some d' ∧ d'.id = d.id := by
      simpa [hd] using hid
    simp [hd', Document.stem, hsame]

theorem findIdx? (id : String) : documents'.findIdx? (fun d => d.isIdentifiedBy id) =
    documents.findIdx? fun d => d.isIdentifiedBy id := by
  induction documents generalizing documents' with
  | nil =>
    obtain rfl : documents' = [] := List.map_eq_nil_iff.mp h
    rfl
  | cons d ds ih =>
    cases documents' with
    | nil => cases h
    | cons d' ds' =>
      obtain ⟨hnames, hrest⟩ := List.cons.inj h
      obtain ⟨hid, haliases⟩ := Prod.mk.inj hnames
      have hrest : SameNames ds ds' := hrest
      have hidentified : d'.isIdentifiedBy id = d.isIdentifiedBy id := by
        rw [Document.isIdentifiedBy, Document.isIdentifiedBy, hid, haliases]
      rw [List.findIdx?_cons, List.findIdx?_cons, hidentified, ih hrest]

theorem repeatedId? (seen : List String) :
    SchemaStructs.repeatedId? seen documents' = SchemaStructs.repeatedId? seen documents := by
  induction documents generalizing documents' seen with
  | nil =>
    obtain rfl : documents' = [] := List.map_eq_nil_iff.mp h
    rfl
  | cons d ds ih =>
    cases documents' with
    | nil => cases h
    | cons d' ds' =>
      obtain ⟨hnames, hrest⟩ := List.cons.inj h
      have hid : d'.id = d.id := congrArg Prod.fst hnames
      have hrest : SameNames ds ds' := hrest
      simp only [SchemaStructs.repeatedId?, hid, ih hrest]

theorem aim {text text' : String} (hidentity : (Reference.split text').1 = (Reference.split text).1)
    (hpointer : Pointer.ofFragment? (Reference.split text').2 =
      Pointer.ofFragment? (Reference.split text).2) (i : Nat) :
    Reference.aim documents' text' i = Reference.aim documents text i := by
  unfold Reference.aim
  dsimp only
  rw [hidentity, hpointer, h.findIdx?]

end SameNames

theorem Node.segment_ne_definition {n : Node} {name : String} {slot : Slot}
    (h : slot ∈ n.slots name) (key : String) : slot.segment ≠ .definition key := by
  obtain h | h := List.mem_append.mp h
  · obtain ⟨p, -, rfl⟩ := List.mem_map.mp h
    simp [Slot.ofProperty]
  · obtain ⟨e, -, rfl⟩ := List.mem_map.mp h
    simp [Slot.ofExtra]

namespace Job

variable {job job' : Job}

section
variable (h : SameNames job.documents job'.documents)

include h

theorem origin_of_sameNames (l : Location) : job'.origin l = job.origin l := by
  rw [origin, origin, h.documentId]

theorem rootKey_of_sameNames (ho : job'.options = job.options) (i : Nat) :
    job'.rootKey i = job.rootKey i := by
  rw [rootKey, rootKey, stem?, stem?, h.stem?, ho]

theorem targetKey_of_sameNames (ho : job'.options = job.options) (l : Location) :
    job'.targetKey l = job.targetKey l := by
  rw [targetKey, targetKey, rootKey_of_sameNames h ho]

end

/-- Two jobs look the same wherever the walk can come. At these places their nodes are alike, and
references point from one to the same places as from the other. -/
structure Mirrors (job job' : Job) (W : Location → Prop) (E : CompileError → CompileError → Prop) :
    Prop where
  options : job'.options = job.options
  names : SameNames job.documents job'.documents
  root : ∀ i, W (.root i)
  join : ∀ {l n s}, W l → job.nodeAt? l = some n → (∀ name, s ≠ .definition name) → W (l.join s)
  alike : ∀ {l n n'}, W l → job.nodeAt? l = some n → job'.nodeAt? l = some n' → n.Alike n'
  found : ∀ {l}, W l → (job.nodeAt? l).isSome = (job'.nodeAt? l).isSome
  aim : ∀ {l n n' text text'}, W l → job.nodeAt? l = some n → job'.nodeAt? l = some n' →
    n.head.reference = some text → n'.head.reference = some text' →
    Reference.aim job'.documents text' l.document = Reference.aim job.documents text l.document ∧
    (∀ m, Reference.aim job.documents text l.document = .ok m → W m) ∧
    ∀ document fault, E (.unresolvedReference text document fault)
      (.unresolvedReference text' document fault)
  refl : ∀ e, E e e

namespace Mirrors

open Synthesis

variable {W : Location → Prop} {E : CompileError → CompileError → Prop}
  (h : Mirrors job job' W E)

include h

theorem resolve_cases {l : Location} {n n' : Node} {text text' : String} (hl : W l)
    (hn : job.nodeAt? l = some n) (hn' : job'.nodeAt? l = some n')
    (hk : n.kind? = some (.reference text)) (hk' : n'.kind? = some (.reference text')) :
    (∃ target target', Reference.resolve job.documents text l.document = .ok target ∧
      Reference.resolve job'.documents text' l.document = .ok target' ∧
      target'.location = target.location ∧ W target.location) ∨
    ∃ e e', Reference.resolve job.documents text l.document = .error e ∧
      Reference.resolve job'.documents text' l.document = .error e' ∧ E e e' := by
  obtain ⟨haim, hW, hE⟩ :=
    h.aim hl hn hn' (Node.reference_of_kind? hk) (Node.reference_of_kind? hk')
  obtain ⟨target, target', ht, ht', hloc⟩ | ⟨fault, ht, ht'⟩ :=
    Reference.resolve_cases haim (h.names.documentId _) fun m hm => h.found (hW m hm)
  · exact .inl ⟨target, target', ht, ht', hloc, hW _ (Reference.aim_of_resolve ht)⟩
  · exact .inr ⟨_, _, ht, ht', hE _ _⟩

theorem simulates : Simulates job job' (fun l key l' key' => W l ∧ l' = l ∧ key' = key)
    (fun l key l' key' => W l ∧ l' = l ∧ key' = key) (fun l l' => l' = l)
    (fun s s' => ∃ log, s' = { s with log }) E where
  recursive := by rw [h.options]
  alike := by
    rintro _ _ l key n n' ⟨hl, rfl, rfl⟩ hn hn'
    exact h.alike hl hn hn'
  corresponds := id
  items := by
    rintro _ _ l key n m ⟨hl, rfl, rfl⟩ hn hk
    exact ⟨h.join hl hn nofun, rfl, rfl⟩
  value := by
    rintro _ _ l key n m ⟨hl, rfl, rfl⟩ hn hk
    exact ⟨h.join hl hn nofun, rfl, rfl⟩
  slot := by
    rintro _ _ l key n s s' name slot ⟨hl, rfl, rfl⟩ hn hst hs hname hslot
    exact ⟨h.join hl hn (Node.segment_ne_definition hslot), rfl, rfl⟩
  target := by
    rintro _ _ l key n n' text text' target ⟨hl, rfl, rfl⟩ hn hn' hk hk' ht
    obtain ⟨target₁, target', ht₁, ht', hloc, hW⟩ | ⟨e, e', he, -⟩ :=
      h.resolve_cases hl hn hn' hk hk'
    · cases ht₁.symm.trans ht
      refine ⟨target', ht', hloc, hW, hloc, ?_⟩
      rw [hloc, targetKey_of_sameNames h.names h.options]
    · cases he.symm.trans ht
  unresolved := by
    rintro _ _ l key n n' text text' e ⟨hl, rfl, rfl⟩ hn hn' hk hk' ht
    obtain ⟨target₁, target', ht₁, -⟩ | ⟨e₁, e', he, he', hE⟩ := h.resolve_cases hl hn hn' hk hk'
    · cases ht₁.symm.trans ht
    · cases he.symm.trans ht
      exact ⟨e', he', hE⟩
  note := by
    rintro s _ events events' ⟨log, rfl⟩
    exact ⟨_, rfl⟩
  resolvedType? := by
    rintro s _ _ l ⟨log, rfl⟩ rfl
    rfl
  reentry := by
    rintro s _ _ l recursive ⟨log, rfl⟩ rfl
    rfl
  cycle := by
    rintro s _ _ l ⟨log, rfl⟩ rfl
    rw [show job'.origin = job.origin from funext (origin_of_sameNames h.names)]
    exact h.refl _
  enter := by
    rintro s _ _ l ⟨log, rfl⟩ rfl
    exact ⟨log, rfl⟩
  leave := by
    rintro s _ t _ l _ τ ⟨log, rfl⟩ rfl ⟨log', rfl⟩ _ _
    exact ⟨log', rfl⟩
  shape := by
    rintro _ _ l key typeName ⟨hl, rfl, rfl⟩
    rw [origin_of_sameNames h.names]
    exact h.refl _
  nameOf? := by
    rintro _ _ l key s _ ⟨hl, rfl, rfl⟩ ⟨log, rfl⟩
    rfl
  isDefined := by
    rintro _ _ l key s _ ⟨hl, rfl, rfl⟩ ⟨log, rfl⟩
    rfl
  reopened := by
    rintro _ _ l key ⟨hl, rfl, rfl⟩
    rw [origin_of_sameNames h.names]
    exact h.refl _
  opened := by
    rintro _ _ l key n n' s _ ⟨hl, rfl, rfl⟩ hn hst hn' ⟨log, rfl⟩ hname
    have hstem : job'.stem? l.document = job.stem? l.document := h.names.stem? l.document
    cases hd : s.registry.declare l (Naming.typeName n.head.title key) (job.origin l)
        (job.stem? l.document) with
    | error e =>
      have hd' := hd
      rw [← (h.alike hl hn hn').title, ← origin_of_sameNames h.names, ← hstem] at hd'
      rw [openStruct_of_error hd, openStruct_of_error (s := { s with log }) hd']
      exact .error (h.refl e)
    | ok declared =>
      obtain ⟨name, registry, events⟩ := declared
      have hd' := hd
      rw [← (h.alike hl hn hn').title, ← origin_of_sameNames h.names, ← hstem] at hd'
      rw [openStruct_of_ok hd, openStruct_of_ok (s := { s with log }) hd']
      exact .ok rfl ⟨_, rfl⟩
  closed := by
    rintro _ _ l key s _ name description fields ⟨hl, rfl, rfl⟩ ⟨log, rfl⟩
    rw [origin_of_sameNames h.names]
    exact ⟨_, rfl⟩

theorem compile : (∃ m, (compile job.options job.documents).result = .ok m ∧
      (compile job'.options job'.documents).result = .ok m) ∨
    ∃ e e', E e e' ∧ (compile job.options job.documents).result = .error e ∧
      (compile job'.options job'.documents).result = .error e' := by
  have hstart : ∃ log, start job'.options = { start job.options with log } := by
    rw [h.options]
    exact ⟨_, rfl⟩
  have hroot : ∀ i, W (.root i) ∧ Location.root i = .root i ∧ job'.rootKey i = job.rootKey i :=
    fun i => ⟨h.root i, rfl, rootKey_of_sameNames h.names h.options i⟩
  obtain ⟨s, _, ⟨log, rfl⟩, -, hm, hm'⟩ | herror := compile_agree
    (fun k k' => h.simulates.walksAgree) hroot h.names.length_eq (h.names.repeatedId? _)
    (fun id => h.refl _) hstart
  · exact .inl ⟨_, hm, hm'⟩
  · exact .inr herror

end Mirrors

end Job

end SchemaStructs
