import Mathlib.Data.List.Chain
import SchemaStructs.Proofs.Fields
import SchemaStructs.Proofs.Justification
import SchemaStructs.Proofs.Layering

namespace SchemaStructs

open Relation (TransGen)

def Document.RefersDirectly (d : Document) : Prop :=
  ∀ p n text q, d.lookup p = some n → n.head.reference = some text →
    Pointer.ofFragment? (Reference.split text).2 = some q → .additional ∉ q

theorem Document.refersDirectly_iff {d : Document} : d.RefersDirectly ↔
    ∀ p ∈ d.root.node.pointers, ∀ n ∈ d.lookup p, ∀ text ∈ n.head.reference,
      ∀ q ∈ Pointer.ofFragment? (Reference.split text).2, .additional ∉ q := by
  constructor
  · intro h p _ n hn text ht q hq
    exact h p n text q hn ht hq
  · intro h p n text q hn ht hq
    exact h p (Node.mem_pointers hn) n hn text ht q hq

instance (d : Document) : Decidable d.RefersDirectly :=
  decidable_of_iff _ Document.refersDirectly_iff.symm

namespace Job

variable {job job' : Job} {σ : Nat → Nat}

theorem not_justified_duplicate {id : String} (h : DistinctIds job.documents) :
    ¬ job.Justified (.duplicateDocument id) := by
  rintro ⟨hne, d, d', hsub, hid, hid'⟩
  have hempty : d.id = "" :=
    List.pairwise_iff_forall_sublist.mp h hsub (hid.trans hid'.symm)
  exact hne (hid.symm.trans hempty)

theorem direct_of_documents (h : ∀ d ∈ job.documents, d.RefersDirectly) : job.Direct := by
  intro l n text target hn hk ht
  obtain ⟨d, hd, hlookup⟩ := Option.bind_eq_some_iff.mp hn
  exact h d (List.mem_of_getElem? hd) _ n text _ hlookup (Node.reference_of_kind? hk)
    (Reference.pointer_of_resolve ht)

theorem Renumbers.turns {l m : Location} (h : Renumbers σ job job')
    (hrec : job'.options.recursive = job.options.recursive) (hp : TransGen job.Turn l m) :
    TransGen job'.Turn (l.renumber σ) (m.renumber σ) := by
  refine TransGen.lift (Location.renumber σ) ?_ _ _ hp
  rintro a b ⟨he, hs⟩
  refine ⟨h.edge he, ?_⟩
  rw [hrec]
  intro hr
  exact h.not_isStructAt (hs hr)

/-- What an error says of documents it says of them under other numbers too. -/
theorem Renumbers.justified {e : CompileError} (h : Renumbers σ job job') (hσ : σ.Injective)
    (hpolicy : job'.options.policy = job.options.policy)
    (hrec : job'.options.recursive = job.options.recursive)
    (hids : DistinctIds job.documents) (hj : job.Justified e) : job'.Justified e := by
  cases e with
  | duplicateDocument id => exact absurd hj (not_justified_duplicate hids)
  | invalidShape origin typeName =>
    obtain ⟨l, n, hl, hn, rfl, htype, hk⟩ := hj
    exact ⟨l.renumber σ, n, h.live hl, (h.nodeAt? l).trans hn, h.origin l, htype, hk⟩
  | unresolvedReference reference document fault =>
    obtain ⟨l, n, text, hl, hn, hk, ht⟩ := hj
    refine ⟨l.renumber σ, n, text, h.live hl, (h.nodeAt? l).trans hn, hk, ?_⟩
    have hresolve := h.resolve text l.document
    rw [ht] at hresolve
    exact hresolve
  | nameCollision name first second =>
    obtain ⟨hp, l, l', hne, rfl, rfl, hd, hd'⟩ := hj
    refine ⟨hpolicy.trans hp, l.renumber σ, l'.renumber σ, ?_, h.origin l, h.origin l',
      h.derives hd, h.derives hd'⟩
    intro heq
    exact hne (Location.renumber_injective hσ heq)
  | cyclicReference chain =>
    obtain ⟨l, way, rfl, hl, hchain⟩ := hj
    refine ⟨l.renumber σ, way.map (Location.renumber σ), ?_, h.live hl, ?_⟩
    · simp [h.origin]
    · have hmap :=
        List.isChain_map_of_isChain (Location.renumber σ) (fun _ _ => h.turns hrec) hchain
      simpa using hmap
  | tooDeep => exact hj

end Job

namespace Synthesis

/-- What a run leaves behind that succeeds where names may not collide: nothing in it depends on the
order of the run. -/
structure Determined (job : Job) (s : Synthesis) : Prop extends s.Settled job where
  filled : s.Filled job
  named : ∀ l name, s.registry.nameOf? l = some name ↔ job.Derives l name
  acyclic : job.options.recursive = false → s.registry.structs.Acyclic

variable {job job' : Job} {s s' : Synthesis}

theorem determined_of_roots
    (h : Roots job (List.range job.documents.length) (start job.options) (.ok ()) s)
    (hpolicy : job.options.policy = .fail) (hdirect : job.Direct) : s.Determined job := by
  have hi : ∀ i ∈ List.range job.documents.length, i < job.documents.length :=
    fun i => List.mem_range.mp
  have hsettled : s.Settled job := settled_of_roots h
  have hready : s.Ready job := h.ready hi ready_start
  refine ⟨hsettled, ?_, ?_, ?_⟩
  · exact keeps_filled.roots h hi (fun _ _ => trivial) (sound_start _) nofun
  · have hgiven : ∀ l name, s.registry.nameOf? l = some name → job.Derives l name := by
      intro l name hname
      obtain ⟨d, hd, rfl, rfl⟩ := Registry.exists_of_nameOf? hname
      exact hready.given.derived hpolicy d hd
    intro l name
    refine ⟨hgiven l name, ?_⟩
    intro hderives
    obtain ⟨τ, hτ⟩ := hsettled.exists_type hderives.live
    obtain ⟨name', hname', -⟩ := hτ.exists_name hderives.isStructAt
    rw [hderives.unique hdirect (hgiven l name' hname')]
    exact hname'
  · intro hrec
    exact (h.layered hrec hi (sound_start _) (layered_start _)).acyclic

namespace Determined

theorem not_turns {l : Location} (h : s.Determined job) (hl : job.Live l) :
    ¬ TransGen job.Turn l l := by
  intro hcycle
  cases hrec : job.options.recursive with
  | true =>
    obtain ⟨τ, hτ⟩ := h.exists_type hl
    have hlinks : TransGen job.Link l l :=
      TransGen.mono (fun _ _ ht => Job.link_iff.mpr ⟨ht.1, ht.2 hrec⟩) _ _ hcycle
    exact hτ.grounded.not_cycle hlinks
  | false =>
    have hedges : TransGen job.Edge l l := TransGen.mono (fun _ _ ht => ht.1) _ _ hcycle
    exact h.not_acyclic hl hedges (h.acyclic hrec)

/-- No error can be justified once a run has succeeded. -/
theorem not_justified {e : CompileError} (h : s.Determined job) (hids : DistinctIds job.documents) :
    ¬ job.Justified e := by
  have htypable : job.Typable := Job.typable_of_hasType fun l => h.exists_type
  intro hj
  cases e with
  | duplicateDocument id => exact Job.not_justified_duplicate hids hj
  | invalidShape origin typeName =>
    obtain ⟨l, n, hl, hn, -, -, hk⟩ := hj
    exact htypable.kind l n hl hn hk
  | unresolvedReference reference document fault =>
    obtain ⟨l, n, text, hl, hn, hk, hfail⟩ := hj
    obtain ⟨target, ht⟩ := htypable.target l n text hl hn hk
    cases ht.symm.trans hfail
  | nameCollision name first second =>
    obtain ⟨-, l, l', hne, -, -, hd, hd'⟩ := hj
    have hname := (h.named l name).mpr hd
    have hname' := (h.named l' name).mpr hd'
    exact hne (h.sound.consistent.location_unique hname hname')
  | cyclicReference chain =>
    obtain ⟨l, hl, hcycle⟩ := hj.exists_cycle
    exact h.not_turns hl hcycle
  | tooDeep => exact hj

theorem get?_of_renumbers {σ : Nat → Nat} {name : String} {struct : Struct}
    (h : s.Determined job) (h' : s'.Determined job') (hr : Job.Renumbers σ job job')
    (hs : s.registry.structs.get? name = some struct) :
    s'.registry.structs.get? name = some struct := by
  have hnames : ∀ l name, s.registry.nameOf? l = some name →
      s'.registry.nameOf? (l.renumber σ) = some name := by
    intro l name hname
    exact (h'.named _ _).mpr (hr.derives ((h.named l name).mp hname))
  have hkey : name ∈ s.registry.structs.keys := Dict.mem_keys_iff.mpr ⟨struct, hs⟩
  obtain ⟨d, hd, rfl⟩ := Registry.mem_names.mp (h.sound.consistent.structs name hkey)
  have hname := hnames _ _ (h.sound.consistent.nameOf?_of_mem hd)
  obtain ⟨d', hd', hloc, hsame⟩ := Registry.exists_of_nameOf? hname
  obtain ⟨struct', hs'⟩ := h'.defined d' hd'
  obtain ⟨hstruct, n, hyields⟩ := h.filled d hd struct hs
  obtain ⟨hstruct', n', hyields'⟩ := h'.filled d' hd' struct' hs'
  rw [hloc] at hyields'
  have heq : struct = struct' := by
    apply (hr.yields hnames hyields).unique hyields'
    rw [hstruct, hstruct', hsame]
  rw [heq, ← hsame]
  exact hs'

end Determined

end Synthesis

open Synthesis

theorem compile_ok_of_perm {documents documents' : List Document} {options : Options}
    {m : StructMap} (hp : documents.Perm documents') (halias : ∀ d ∈ documents, d.aliases = [])
    (hdirect : ∀ d ∈ documents, d.RefersDirectly) (hpolicy : options.policy = .fail)
    (h : (compile options documents).result = .ok m) :
    (compile options documents').result = .ok m := by
  let job : Job := ⟨documents, options⟩
  let job' : Job := ⟨documents', options⟩
  obtain ⟨hid, s, hroots, rfl, -⟩ := compile_ok h
  have hids : DistinctIds documents := (repeatedId?_eq_none_iff.mp hid).2
  have hids' : DistinctIds documents' := hids.perm hp
  have halias' : ∀ d ∈ documents', d.aliases = [] := fun d hd => halias d (hp.mem_iff.mpr hd)
  have hs : s.Determined job :=
    determined_of_roots hroots hpolicy (Job.direct_of_documents hdirect)
  obtain ⟨σ, hσ, hrenumbers⟩ := Job.exists_renumbers options hp halias hids
  obtain ⟨τ, hτ, hrenumbers'⟩ := Job.exists_renumbers options hp.symm halias' hids'
  have hid' : repeatedId? [] documents' = none := repeatedId?_eq_none_iff.mpr ⟨nofun, hids'⟩
  cases hr : (compile options documents').result with
  | error e =>
    obtain ⟨id, hsome, -⟩ | hj := @compile_error job' e hr
    · cases hid'.symm.trans hsome
    · exact absurd (hrenumbers'.justified hτ rfl rfl hids' hj) (hs.not_justified hids)
  | ok m' =>
    obtain ⟨-, s', hroots', rfl, -⟩ := compile_ok hr
    have hdirect' : ∀ d ∈ documents', d.RefersDirectly := fun d hd =>
      hdirect d (hp.mem_iff.mpr hd)
    have hs' : s'.Determined job' :=
      determined_of_roots hroots' hpolicy (Job.direct_of_documents hdirect')
    congr 1
    ext name struct
    exact ⟨hs'.get?_of_renumbers hs hrenumbers', hs.get?_of_renumbers hs' hrenumbers⟩

/-- Where names may not collide, the order of the documents makes no difference: permuted documents
compile if and only if the documents do, and then to the same structs. The documents have no
aliases, and no reference goes through extra properties, so that every struct can have one name
only. -/
theorem compile_order_irrelevant {documents documents' : List Document}
    (hp : documents.Perm documents') (halias : ∀ d ∈ documents, d.aliases = [])
    (hdirect : ∀ d ∈ documents, d.RefersDirectly) (recursive : Bool) (rootName : String)
    (m : StructMap) :
    let options : Options := { policy := .fail, recursive, rootName }
    (compile options documents).result = .ok m ↔ (compile options documents').result = .ok m := by
  have halias' : ∀ d ∈ documents', d.aliases = [] := fun d hd => halias d (hp.mem_iff.mpr hd)
  have hdirect' : ∀ d ∈ documents', d.RefersDirectly := fun d hd => hdirect d (hp.mem_iff.mpr hd)
  constructor
  · exact compile_ok_of_perm hp halias hdirect rfl
  · exact compile_ok_of_perm hp.symm halias' hdirect' rfl

theorem samples_order_irrelevant :
    ∃ m, (compile { policy := .fail } samples.documents).result = .ok m ∧
      m.keys = ["Customer", "Line", "Order"] ∧
      (compile { policy := .fail } samples.documents.reverse).result = .ok m := by
  have h : (compile { policy := .fail } samples.documents).result.toOption.map Dict.keys =
      some ["Customer", "Line", "Order"] := by decide +kernel
  obtain ⟨m, hm, hk⟩ := exists_ok_of_keys h
  have halias : ∀ d ∈ samples.documents, d.aliases = [] := by decide +kernel
  have hdirect : ∀ d ∈ samples.documents, d.RefersDirectly := by decide +kernel
  have hiff := compile_order_irrelevant (List.reverse_perm _).symm halias hdirect true "Root" m
  exact ⟨m, hm, hk, hiff.mp hm⟩

end SchemaStructs
