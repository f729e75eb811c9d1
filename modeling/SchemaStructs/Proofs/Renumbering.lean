import Mathlib.Data.List.Perm.Basic
import Mathlib.Logic.Relation
import SchemaStructs.Proofs.Keys

namespace SchemaStructs

def Location.renumber (σ : Nat → Nat) (l : Location) : Location := ⟨σ l.document, l.pointer⟩

def Target.renumber (σ : Nat → Nat) (t : Target) : Target := ⟨t.location.renumber σ, t.node⟩

theorem Location.renumber_injective {σ : Nat → Nat} (h : σ.Injective) :
    (Location.renumber σ).Injective := by
  rintro ⟨i, p⟩ ⟨j, q⟩ heq
  obtain ⟨hij, hpq⟩ := Location.mk.inj heq
  exact congrArg₂ Location.mk (h hij) hpq

namespace Job

/-- The documents of one job are among those of another: the one numbered `i` has number `σ i`
there, and references lead from it to the same nodes. -/
structure Renumbers (σ : Nat → Nat) (job job' : Job) : Prop where
  document : ∀ i, job'.documents[σ i]? = job.documents[i]?
  resolve : ∀ text i, Reference.resolve job'.documents text (σ i) =
    (Reference.resolve job.documents text i).map (Target.renumber σ)
  rootName : job'.options.rootName = job.options.rootName

namespace Renumbers

variable {σ : Nat → Nat} {job job' : Job} {l m : Location} {key name : String}
  (h : Renumbers σ job job')

include h

theorem nodeAt? (l : Location) : job'.nodeAt? (l.renumber σ) = job.nodeAt? l := by
  unfold Job.nodeAt? Reference.nodeAt?
  rw [← h.document l.document]
  rfl

theorem origin (l : Location) : job'.origin (l.renumber σ) = job.origin l := by
  unfold Job.origin Reference.documentId
  rw [← h.document l.document]
  rfl

theorem rootKey (i : Nat) : job'.rootKey (σ i) = job.rootKey i := by
  unfold Job.rootKey Job.stem?
  rw [h.document i, h.rootName]

theorem targetKey (l : Location) : job'.targetKey (l.renumber σ) = job.targetKey l := by
  unfold Job.targetKey
  rw [← h.rootKey l.document]
  rfl

theorem resolve_ok {text : String} {i : Nat} {target : Target}
    (ht : Reference.resolve job.documents text i = .ok target) :
    Reference.resolve job'.documents text (σ i) = .ok (target.renumber σ) := by
  rw [h.resolve, ht]
  rfl

theorem lt_length {i : Nat} (hi : i < job.documents.length) : σ i < job'.documents.length := by
  have hd : job'.documents[σ i]? = some job.documents[i] :=
    (h.document i).trans (List.getElem?_eq_getElem hi)
  exact (List.getElem?_eq_some_iff.mp hd).1

theorem not_isStructAt (hs : ¬ job.IsStructAt l) : ¬ job'.IsStructAt (l.renumber σ) := by
  rintro ⟨n, hn, hst⟩
  exact hs ⟨n, (h.nodeAt? l).symm.trans hn, hst⟩

theorem edge (he : job.Edge l m) : job'.Edge (l.renumber σ) (m.renumber σ) := by
  have hnode : ∀ {n}, job.nodeAt? l = some n → job'.nodeAt? (l.renumber σ) = some n :=
    fun hn => (h.nodeAt? l).trans hn
  obtain hl | hp := he
  · cases hl with
    | reference hn hk ht => exact .inl (.reference (hnode hn) hk (h.resolve_ok ht))
    | items hn hk => exact .inl (.items (hnode hn) hk)
    | value hn hk => exact .inl (.value (hnode hn) hk)
  · cases hp with
    | property hn hs hp => exact .inr (.property (hnode hn) hs hp)
    | extra hn hs he => exact .inr (.extra (hnode hn) hs he)

theorem live (hl : job.Live l) : job'.Live (l.renumber σ) := by
  induction hl with
  | root hi => exact .root (h.lt_length hi)
  | edge _ he ih => exact .edge ih (h.edge he)

theorem edges (hp : Relation.TransGen job.Edge l m) :
    Relation.TransGen job'.Edge (l.renumber σ) (m.renumber σ) :=
  Relation.TransGen.lift (Location.renumber σ) (fun _ _ => h.edge) _ _ hp

theorem keyed (hk : job.Keyed l key) : job'.Keyed (l.renumber σ) key := by
  have hnode : ∀ {l n}, job.nodeAt? l = some n → job'.nodeAt? (l.renumber σ) = some n :=
    fun {l _} hn => (h.nodeAt? l).trans hn
  induction hk with
  | root hi =>
    rw [← h.rootKey]
    exact .root (h.lt_length hi)
  | items _ hn hkind ih => exact .items ih (hnode hn) hkind
  | value _ hn hkind ih => exact .value ih (hnode hn) hkind
  | reference _ hn hkind ht ih =>
    rw [← h.targetKey]
    exact .reference ih (hnode hn) hkind (h.resolve_ok ht)
  | property _ hn hs hp ih => exact .property ih (hnode hn) hs hp
  | extra _ hn hs he ih => exact .extra ih (hnode hn) hs he

theorem derives (hd : job.Derives l name) : job'.Derives (l.renumber σ) name := by
  obtain ⟨n, key, hn, hs, hk, hname⟩ := hd
  exact ⟨n, key, (h.nodeAt? l).trans hn, hs, h.keyed hk, hname⟩

theorem hasType {names names' : Location → Option String} {τ : TypeDesc}
    (hnames : ∀ l name, names l = some name → names' (l.renumber σ) = some name)
    (ht : job.HasType names l τ) : job'.HasType names' (l.renumber σ) τ := by
  have hnode : ∀ {l n}, job.nodeAt? l = some n → job'.nodeAt? (l.renumber σ) = some n :=
    fun {l _} hn => (h.nodeAt? l).trans hn
  induction ht with
  | leaf hn hleaf => exact .leaf (hnode hn) hleaf
  | reference hn hk ht _ ih => exact .reference (hnode hn) hk (h.resolve_ok ht) ih
  | items hn hk _ ih => exact .items (hnode hn) hk ih
  | value hn hk _ ih => exact .value (hnode hn) hk ih
  | struct hn hs hname => exact .struct (hnode hn) hs (hnames _ _ hname)

end Renumbers

end Job

section
variable {documents documents' : List Document} {σ : Nat → Nat}

theorem exists_renumbering {α : Type} {xs ys : List α} (h : xs.Perm ys) :
    ∃ σ : Nat → Nat, σ.Injective ∧ ∀ i, ys[σ i]? = xs[i]? := by
  classical
  have hlen := h.length_eq
  refine ⟨fun i => if hi : i < xs.length then h.idxBij ⟨i, hi⟩ else i, ?_, ?_⟩
  · intro i j hij
    dsimp only at hij
    split at hij <;> split at hij
    next hi hj => exact Fin.mk.inj (h.idxBij_injective (Fin.ext hij))
    next hi hj =>
      have hlt := (h.idxBij ⟨i, hi⟩).isLt
      omega
    next hi hj =>
      have hlt := (h.idxBij ⟨j, hj⟩).isLt
      omega
    next => exact hij
  · intro i
    dsimp only
    split
    next hi =>
      rw [List.getElem?_eq_getElem (h.idxBij ⟨i, hi⟩).isLt, List.getElem?_eq_getElem hi]
      exact congrArg some (h.getElem_idxBij_eq_getElem ⟨i, hi⟩)
    next hi => rw [List.getElem?_eq_none (by omega), List.getElem?_eq_none (by omega)]

def Document.identities (d : Document) : List String := d.id :: d.aliases

theorem Document.isIdentifiedBy_iff {d : Document} {id : String} :
    d.isIdentifiedBy id ↔ normalizeId id ≠ "" ∧ normalizeId id ∈ d.identities := by
  simp [isIdentifiedBy, identities, @eq_comm _ d.id]

def Unambiguous (documents : List Document) : Prop :=
  documents.Pairwise fun d d' => ∀ id, d.isIdentifiedBy id → ¬ d'.isIdentifiedBy id

namespace Unambiguous

theorem perm (h : Unambiguous documents) (hp : documents.Perm documents') :
    Unambiguous documents' := by
  refine List.Perm.pairwise hp h ?_
  intro d d' hd id hident hident'
  exact hd id hident' hident

theorem findIdx? {d : Document} {i : Nat} {id : String} (h : Unambiguous documents)
    (hd : documents[i]? = some d) (hident : d.isIdentifiedBy id) :
    documents.findIdx? (fun d => d.isIdentifiedBy id) = some i := by
  obtain ⟨hlt, rfl⟩ := List.getElem?_eq_some_iff.mp hd
  refine List.findIdx?_eq_some_iff_getElem.mpr ⟨hlt, hident, ?_⟩
  intro k hk hident'
  have hklt : k < documents.length := by omega
  exact List.pairwise_iff_getElem.mp h k i hklt hlt hk id hident' hident

theorem findIdx?_perm (h : Unambiguous documents) (hp : documents.Perm documents')
    (hσ : ∀ i, documents'[σ i]? = documents[i]?) (id : String) :
    documents'.findIdx? (fun d => d.isIdentifiedBy id) =
      (documents.findIdx? fun d => d.isIdentifiedBy id).map σ := by
  cases hfind : documents.findIdx? fun d => d.isIdentifiedBy id with
  | none =>
    apply List.findIdx?_eq_none_iff.mpr
    intro d hd
    exact List.findIdx?_eq_none_iff.mp hfind d (hp.mem_iff.mpr hd)
  | some j =>
    obtain ⟨hj, hident, -⟩ := List.findIdx?_eq_some_iff_getElem.mp hfind
    have hget : documents'[σ j]? = some documents[j] :=
      (hσ j).trans (List.getElem?_eq_getElem hj)
    exact (h.perm hp).findIdx? hget hident

end Unambiguous

def DistinctIds (documents : List Document) : Prop :=
  documents.Pairwise fun d d' => d.id = d'.id → d.id = ""

theorem DistinctIds.perm (h : DistinctIds documents) (hp : documents.Perm documents') :
    DistinctIds documents' := by
  refine List.Perm.pairwise hp h ?_
  intro d d' hd he
  exact he.trans (hd he.symm)

def AliasesApart (documents : List Document) : Prop :=
  documents.Pairwise fun d d' =>
    d.aliases.Disjoint d'.identities ∧ d'.aliases.Disjoint d.identities

theorem aliasesApart_of_nil (h : ∀ d ∈ documents, d.aliases = []) : AliasesApart documents := by
  apply List.pairwise_of_forall_mem_list
  intro d hd d' hd'
  rw [h d hd, h d' hd']
  exact ⟨List.disjoint_nil_left _, List.disjoint_nil_left _⟩

theorem DistinctIds.unambiguous (h : DistinctIds documents) (ha : AliasesApart documents) :
    Unambiguous documents := by
  refine List.Pairwise.imp ?_ (List.pairwise_and_iff.mpr ⟨h, ha⟩)
  rintro d d' ⟨hids, hleft, hright⟩ id hident hident'
  obtain ⟨hne, hmem⟩ := Document.isIdentifiedBy_iff.mp hident
  obtain ⟨-, hmem'⟩ := Document.isIdentifiedBy_iff.mp hident'
  obtain heq | halias := List.mem_cons.mp hmem
  · obtain heq' | halias' := List.mem_cons.mp hmem'
    · exact hne (heq.trans (hids (heq.symm.trans heq')))
    · exact hright halias' hmem
  · exact hleft halias hmem'

theorem Reference.resolve_renumber (hσ : ∀ i, documents'[σ i]? = documents[i]?)
    (hfind : ∀ id, documents'.findIdx? (fun d => d.isIdentifiedBy id) =
      (documents.findIdx? fun d => d.isIdentifiedBy id).map σ) (text : String) (i : Nat) :
    resolve documents' text (σ i) = (resolve documents text i).map (Target.renumber σ) := by
  have hname : documentId documents' (σ i) = documentId documents i := by
    unfold documentId
    rw [hσ]
  have hnode : ∀ j p, nodeAt? documents' ⟨σ j, p⟩ = nodeAt? documents ⟨j, p⟩ := by
    intro j p
    unfold nodeAt?
    rw [hσ]
  have hdocument : (if (split text).1.isEmpty then some (σ i)
      else documents'.findIdx? fun d => d.isIdentifiedBy (String.ofList (split text).1)) =
      (if (split text).1.isEmpty then some i
      else documents.findIdx? fun d => d.isIdentifiedBy (String.ofList (split text).1)).map σ := by
    split
    · rfl
    · exact hfind _
  unfold resolve
  dsimp only
  rw [hname, hdocument]
  cases (if (split text).1.isEmpty then some i
    else documents.findIdx? fun d => d.isIdentifiedBy (String.ofList (split text).1)) with
  | none => rfl
  | some j =>
    cases Pointer.ofFragment? (split text).2 with
    | none => rfl
    | some p =>
      simp only [Option.map_some, hnode]
      cases nodeAt? documents ⟨j, p⟩ with
      | none => rfl
      | some n => rfl

theorem Job.exists_renumbers (options : Options) (hp : documents.Perm documents')
    (halias : ∀ d ∈ documents, d.aliases = []) (hid : DistinctIds documents) :
    ∃ σ : Nat → Nat, σ.Injective ∧ Renumbers σ ⟨documents, options⟩ ⟨documents', options⟩ := by
  obtain ⟨σ, hinj, hσ⟩ := exists_renumbering hp
  have hunique := hid.unambiguous (aliasesApart_of_nil halias)
  have hresolve := Reference.resolve_renumber hσ (hunique.findIdx?_perm hp hσ)
  exact ⟨σ, hinj, hσ, hresolve, rfl⟩

end

end SchemaStructs
