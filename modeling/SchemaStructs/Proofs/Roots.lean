import SchemaStructs.Compile
import SchemaStructs.Proofs.Mention
import SchemaStructs.Sample

namespace SchemaStructs

namespace Synthesis

inductive Roots (job : Job) :
    List Nat → Synthesis → Except CompileError Unit → Synthesis → Prop
  | nil {s : Synthesis} : Roots job [] s (.ok ()) s
  | cons {i : Nat} {rest : List Nat} {τ : TypeDesc} {s s₁ s' : Synthesis}
    {r : Except CompileError Unit} (hw : synthesizeRoot job i s = (.ok τ, s₁))
    (h : Roots job rest s₁ r s') : Roots job (i :: rest) s r s'
  | fail {i : Nat} {rest : List Nat} {e : CompileError} {s s' : Synthesis}
    (hw : synthesizeRoot job i s = (.error e, s')) : Roots job (i :: rest) s (.error e) s'

variable {job : Job} {s s' : Synthesis} {is : List Nat} {r : Except CompileError Unit}

theorem forM_synthesizeRoot_iff :
    (is.forM fun i => do let _ ← synthesizeRoot job i : Synth Unit) s = (r, s') ↔
      Roots job is s r s' := by
  have hstep : ∀ i s r s', synthesizeRoot job i s = (r, s') →
      (do let _ ← synthesizeRoot job i : Synth Unit) s = (r.map fun _ => (), s') := by
    intro i s r s' h
    cases r with
    | error e => exact Synth.bind_error h
    | ok τ => exact Synth.bind_ok h
  constructor
  · intro h
    induction is generalizing s with
    | nil =>
      cases h
      exact .nil
    | cons i rest ih =>
      rw [List.forM] at h
      cases hw : synthesizeRoot job i s with
      | mk result s₁ =>
        cases result with
        | error e =>
          rw [Synth.bind_error (hstep _ _ _ _ hw)] at h
          cases h
          exact .fail hw
        | ok τ =>
          rw [Synth.bind_ok (hstep _ _ _ _ hw)] at h
          exact .cons hw (ih h)
  · intro h
    induction h with
    | nil => rfl
    | cons hw _ ih => rwa [List.forM, Synth.bind_ok (hstep _ _ _ _ hw)]
    | fail hw => rw [List.forM, Synth.bind_error (hstep _ _ _ _ hw)]

theorem synthesizeRoots_iff :
    synthesizeRoots job s = (r, s') ↔ Roots job (List.range job.documents.length) s r s' :=
  forM_synthesizeRoot_iff

theorem exists_root {i : Nat} (h : i < job.documents.length) :
    ∃ node, job.nodeAt? (.root i) = some node ∧
      synthesizeRoot job i = synthesize job node (.root i) (job.rootKey i) := by
  have hd := List.getElem?_eq_getElem h
  exact ⟨_, Job.nodeAt?_root hd, by simp [synthesizeRoot, hd]⟩

theorem synthesizeRoot_of_le {i : Nat} (h : job.documents.length ≤ i) :
    synthesizeRoot job i = throw (.unresolvedReference "#" "" .noDocument) := by
  simp [synthesizeRoot, List.getElem?_eq_none h]

theorem Roots.keeps {I : Synthesis → Prop} (h : Roots job is s r s')
    (hi : ∀ i ∈ is, i < job.documents.length)
    (hw : ∀ i node s r s', i < job.documents.length → job.nodeAt? (.root i) = some node →
      walk job job.allowance node (.root i) (job.rootKey i) s = (r, s') → I s → I s')
    (hI : I s) : I s' := by
  induction h with
  | nil => exact hI
  | cons hroot _ ih =>
    have hlt := hi _ List.mem_cons_self
    obtain ⟨node, hn, heq⟩ := exists_root hlt
    rw [heq] at hroot
    exact ih (fun i hm => hi i (List.mem_cons_of_mem _ hm)) (hw _ node _ _ _ hlt hn hroot hI)
  | fail hroot =>
    have hlt := hi _ List.mem_cons_self
    obtain ⟨node, hn, heq⟩ := exists_root hlt
    rw [heq] at hroot
    exact hw _ node _ _ _ hlt hn hroot hI

/-- Every root has its type at the end, if all of them have been walked. -/
theorem Roots.sound (h : Roots job is s r s') (hr : r = .ok ()) (hs : s.Sound job)
    (hi : ∀ i ∈ is, i < job.documents.length) :
    s.Finished s' ∧ s'.Sound job ∧
      ∀ i ∈ is, ∃ τ, job.HasType s'.registry.nameOf? (.root i) τ := by
  induction h with
  | nil => exact ⟨.refl _, hs, nofun⟩
  | fail => cases hr
  | @cons i rest τ s s₁ s' r hw _ ih =>
    obtain ⟨node, hn, hroot⟩ := exists_root (hi i List.mem_cons_self)
    rw [hroot] at hw
    have hf : s.Finished s₁ := walk_after hw
    obtain ⟨hs₁, hτ⟩ := walk_faithful _ _ _ _ _ _ _ hw hn hs
    obtain ⟨hf', hs', hrest⟩ := ih hr hs₁ fun i hm => hi i (List.mem_cons_of_mem _ hm)
    refine ⟨hf.trans hf', hs', ?_⟩
    intro j hj
    obtain rfl | hj := List.mem_cons.mp hj
    · exact ⟨τ, (hτ τ rfl).mono fun _ _ => hf'.registry.nameOf?⟩
    · exact hrest j hj

structure Settled (job : Job) (s : Synthesis) : Prop where
  sound : s.Sound job
  defined : ∀ d ∈ s.registry.declarations,
    ∃ struct, s.registry.structs.get? d.name = some struct
  roots : ∀ i < job.documents.length, ∃ τ, job.HasType s.registry.nameOf? (.root i) τ

theorem settled_of_roots
    (h : Roots job (List.range job.documents.length) (start job.options) (.ok ()) s) :
    s.Settled job := by
  obtain ⟨hf, hs, hroots⟩ := h.sound rfl (sound_start _) fun i => List.mem_range.mp
  refine ⟨hs, fun d hd => ?_, fun i hi => hroots i (List.mem_range.mpr hi)⟩
  exact (hf.completes d hd).resolve_left List.not_mem_nil

theorem Settled.complete (h : s.Settled job) : s.Complete job := ⟨h.sound, h.defined⟩

theorem Settled.exists_struct {l : Location} {name : String} (h : s.Settled job)
    (hname : s.registry.nameOf? l = some name) :
    ∃ struct n, s.registry.structs.get? name = some struct ∧ struct.name = name ∧
      job.Made s.registry.nameOf? l n struct :=
  h.complete.exists_struct hname

/-- The nodes that have types are closed under all edges: those of a struct have them from its
fields. So every live node has one. -/
theorem Settled.exists_type {l : Location} (h : s.Settled job) (hl : job.Live l) :
    ∃ τ, job.HasType s.registry.nameOf? l τ := by
  induction hl with
  | root hi => exact h.roots _ hi
  | @edge l m _ he ih =>
    obtain ⟨τ, hτ⟩ := ih
    obtain he | he := he
    · exact hτ.of_link he
    · obtain ⟨name, hname, -⟩ := hτ.exists_name he.isStructAt
      obtain ⟨struct, n, -, -, hm⟩ := h.exists_struct hname
      obtain ⟨slot, hslot, rfl⟩ := he.exists_slot hm.node struct.name
      obtain ⟨fs, -, hfs⟩ := hm.fields
      exact Job.exists_type_of_fills hfs hslot

end Synthesis

open Synthesis

theorem compile_ok {options : Options} {documents : List Document} {m : StructMap}
    (h : (compile options documents).result = .ok m) :
    repeatedId? [] documents = none ∧
    ∃ s, Roots ⟨documents, options⟩ (List.range documents.length) (start options) (.ok ()) s ∧
      m = s.registry.structs ∧ ∃ definitions, (compile options documents).log =
        s.log ++ [.compiled documents.length definitions m.size] := by
  unfold compile at h ⊢
  split at h
  next => cases h
  next hid =>
  cases hr : synthesizeRoots ⟨documents, options⟩ (start options) with
  | mk result s =>
    rw [hr] at h
    cases result with
    | error e => cases h
    | ok u =>
      cases h
      exact ⟨hid, s, synthesizeRoots_iff.mp hr, rfl, _, rfl⟩

def samples : Job where
  documents :=
    [{ id := "orders", root := Sample.orders.schema },
      { id := "customers", root := Sample.customers.schema }]

theorem exists_ok_of_keys {r : Except CompileError StructMap} {keys : List String}
    (h : r.toOption.map Dict.keys = some keys) : ∃ m, r = .ok m ∧ m.keys = keys := by
  obtain ⟨m, hm, hk⟩ := Option.map_eq_some_iff.mp h
  cases r with
  | error e => cases hm
  | ok m' =>
    obtain rfl : m' = m := Option.some.inj hm
    exact ⟨m', rfl, hk⟩

theorem exists_samples_ok :
    ∃ m, (compile samples.options samples.documents).result = .ok m ∧
      m.keys = ["Customer", "Line", "Order"] := by
  have h : (compile samples.options samples.documents).result.toOption.map Dict.keys =
      some ["Customer", "Line", "Order"] := by decide +kernel
  exact exists_ok_of_keys h

end SchemaStructs
