import SchemaStructs.Proofs.History
import SchemaStructs.Proofs.Identity
import SchemaStructs.Proofs.Preservation

namespace SchemaStructs

def Registry.undefined (r : Registry) : List String :=
  r.names.filter fun name => !r.structs.contains name

namespace Registry

variable {r : Registry} {d : Declaration} {name : String}

theorem mem_undefined : name ∈ r.undefined ↔ name ∈ r.names ∧ name ∉ r.structs.keys := by
  simp [undefined, ← Dict.contains_iff]

theorem length_undefined_record (h : r.Consistent) (hname : d.name ∉ r.names) :
    (r.record d).undefined.length = r.undefined.length + 1 := by
  have hnew : r.structs.contains d.name = false := by
    apply Bool.eq_false_iff.mpr
    intro hc
    exact hname (h.structs d.name (Dict.contains_iff.mp hc))
  simp [undefined, names, record, hnew]

theorem length_undefined_define (h : r.Consistent) {struct : Struct}
    (hname : struct.name ∈ r.undefined) :
    (r.define struct).1.undefined.length = r.undefined.length - 1 := by
  have hnodup : r.undefined.Nodup := h.names.filter _
  have heq : (r.define struct).1.undefined = r.undefined.erase struct.name := by
    rw [hnodup.erase_eq_filter, undefined, undefined, List.filter_filter]
    apply List.filter_congr
    intro name _
    by_cases hn : name = struct.name <;> simp [define, Dict.contains_insert, hn]
  rw [heq, List.length_erase_of_mem hname]

end Registry

namespace Synthesis

/-- Calls made one after the other, with what they returned, the last one first. -/
inductive Calls (job : Job) : List (Except CompileError TypeDesc) → Synthesis → Prop
  | start : Calls job [] (start job.options)
  | root {results : List (Except CompileError TypeDesc)} {s : Synthesis}
    (h : Calls job results s) (document : Nat) :
    Calls job ((synthesizeRoot job document s).1 :: results) (synthesizeRoot job document s).2
  | node {results : List (Except CompileError TypeDesc)} {s : Synthesis} {l : Location}
    {node : Node} (h : Calls job results s) (hn : job.nodeAt? l = some node) (key : String) :
    Calls job ((synthesize job node l key s).1 :: results) (synthesize job node l key s).2

def Occurs (results : List (Except CompileError TypeDesc)) (s : Synthesis) (name : String) : Prop :=
  (∃ τ, .ok τ ∈ results ∧ τ.struct? = some name) ∨
    (∃ e ∈ s.resolved, e.2.struct? = some name) ∨ ∃ a, s.registry.structs.Mentions a name

def Covers (job : Job) (results : List (Except CompileError TypeDesc)) (s : Synthesis)
    (m : Location) : Prop :=
  ∃ l τ, .ok τ ∈ results ∧ job.HasType s.registry.nameOf? l τ ∧
    Relation.ReflTransGen job.Edge l m

variable {job : Job} {results : List (Except CompileError TypeDesc)} {s s' : Synthesis}

theorem Calls.reached (h : Calls job results s) : Reached job s := by
  induction h with
  | start => exact .start
  | root _ document ih => exact .root ih document
  | node _ hn key ih => exact .node ih hn key

theorem Calls.induct {P : List (Except CompileError TypeDesc) → Synthesis → Prop}
    (hstart : P [] (Synthesis.start job.options))
    (hwalk : ∀ {results s l node key r s'}, s.Sound job → job.nodeAt? l = some node →
      walk job job.allowance node l key s = (r, s') → P results s → P (r :: results) s')
    (hnone : ∀ {results s e}, P results s → P (.error e :: results) s)
    (h : Calls job results s) : P results s := by
  induction h with
  | start => exact hstart
  | root h document ih =>
    obtain hlt | hle := Nat.lt_or_ge document job.documents.length
    · obtain ⟨node, hn, hroot⟩ := exists_root hlt
      rw [hroot]
      exact hwalk h.reached.sound.1 hn rfl ih
    · rw [synthesizeRoot_of_le hle]
      exact hnone ih
  | node h hn key ih => exact hwalk h.reached.sound.1 hn rfl ih

theorem keeps_undefined :
    Keeps job (fun _ _ => True) fun s => s.openStructs = s.registry.undefined.length where
  toPasses := passes_true
  still := by
    intro s s' h hr ho
    rw [hr, ho]
    exact h
  opened := by
    intro s l key n name registry events h hs _ ho
    have hcount := Registry.length_undefined_record (d := ⟨l, name, job.origin l⟩) hs.consistent
      ho.not_mem
    have hopen : (s.opened registry events).openStructs = s.openStructs + 1 := rfl
    rw [hopen, ho.registry_opened, hcount, h]
  closed := by
    intro s s' k l key n name registry events fields h hs hs' ho hf
    have hmem : name ∈ s'.registry.undefined := by
      apply Registry.mem_undefined.mpr
      constructor
      · exact Registry.mem_names.mpr ⟨_, ho.mem_declarations hf, rfl⟩
      · exact Dict.get?_eq_none_iff.mp (ho.get?_eq_none hf hs)
    let struct : Struct := ⟨name, job.origin l, n.head.description, fields⟩
    have hcount : (s'.registry.define struct).1.undefined.length =
        s'.registry.undefined.length - 1 :=
      Registry.length_undefined_define hs'.consistent hmem
    have hopen : (s'.closed struct).openStructs = s'.openStructs - 1 := rfl
    have hreg : (s'.closed struct).registry = (s'.registry.define struct).1 := rfl
    rw [hopen, hreg, hcount, h]

theorem Calls.openStructs_eq (h : Calls job results s) :
    s.openStructs = s.registry.undefined.length :=
  h.induct rfl (fun hs hn hw hi => keeps_undefined.walk hw hn trivial hs hi) id

theorem Calls.hasType (h : Calls job results s) :
    ∀ τ, .ok τ ∈ results → ∃ l, job.HasType s.registry.nameOf? l τ := by
  refine h.induct (P := fun results s => ∀ τ, .ok τ ∈ results →
    ∃ l, job.HasType s.registry.nameOf? l τ) nofun ?_ ?_
  · intro results s l node key r s' hs hn hw ih τ hm
    obtain hm | hm := List.mem_cons.mp hm
    · exact ⟨l, (walk_faithful _ _ _ _ _ _ _ hw hn hs).2 τ hm.symm⟩
    · obtain ⟨l', hτ⟩ := ih τ hm
      exact ⟨l', hτ.mono fun _ _ => (walk_after hw).grown.registry.nameOf?⟩
  · intro results s e ih τ hm
    obtain hm | hm := List.mem_cons.mp hm
    · cases hm
    · exact ih τ hm

theorem Calls.name_mem {name : String} (h : Calls job results s) (ho : s.Occurs results name) :
    name ∈ s.registry.names := by
  have hs : s.Sound job := h.reached.sound.1
  have hmem : ∀ {l τ}, job.HasType s.registry.nameOf? l τ → τ.struct? = some name →
      name ∈ s.registry.names := by
    intro l τ hτ ht
    obtain ⟨m, hm⟩ := hτ.exists_struct ht
    exact Registry.name_mem_of_nameOf? hm
  obtain ⟨τ, hτ, ht⟩ | ⟨e, he, ht⟩ | ⟨a, hm⟩ := ho
  · obtain ⟨l, hl⟩ := h.hasType τ hτ
    exact hmem hl ht
  · exact hmem (hs.cached e he) ht
  · exact hs.name_mem_of_mentions hm

theorem Covers.edge {l m : Location} (h : s.Covers job results l) (he : job.Edge l m) :
    s.Covers job results m := by
  obtain ⟨l₀, τ, hτ, ht, hp⟩ := h
  exact ⟨l₀, τ, hτ, ht, hp.tail he⟩

/-- As long as no call fails, all structs are finished, and calls lead to all of them. -/
theorem Calls.finished (h : Calls job results s) (hok : ∀ e, .error e ∉ results) :
    (Synthesis.start job.options).Finished s ∧ s.DeclaresIn (s.Covers job results) := by
  refine h.induct (P := fun results s => (∀ e, .error e ∉ results) →
    (Synthesis.start job.options).Finished s ∧ s.DeclaresIn (s.Covers job results)) ?_ ?_ ?_ hok
  · intro _
    exact ⟨.refl _, nofun⟩
  · intro results s l node key r s' hs hn hw ih hok
    obtain ⟨hfin, hcov⟩ := ih fun e he => hok e (List.mem_cons_of_mem _ he)
    cases r with
    | error e => exact absurd List.mem_cons_self (hok e)
    | ok τ =>
      have hfin' : s.Finished s' := walk_after hw
      have hτ := (walk_faithful _ _ _ _ _ _ _ hw hn hs).2 τ rfl
      refine ⟨hfin.trans hfin', ?_⟩
      -- What the earlier calls led to they still lead to, and the new call leads to the rest.
      have hnew : s'.DeclaresIn fun m =>
          s.Covers job results m ∨ Relation.ReflTransGen job.Edge l m := by
        refine walk_declaresIn ?_ hw hn (.inr .refl) fun d hd => .inl (hcov d hd)
        rintro l₁ m (hc | hp) he
        · exact .inl (hc.edge he)
        · exact .inr (hp.tail he)
      intro d hd
      obtain ⟨l₀, τ₀, hmem, ht, hp⟩ | hp := hnew d hd
      · have ht' := ht.mono fun _ _ => hfin'.registry.nameOf?
        exact ⟨l₀, τ₀, List.mem_cons_of_mem _ hmem, ht', hp⟩
      · exact ⟨l, τ, List.mem_cons_self, hτ, hp⟩
  · intro results s e _ hok
    exact absurd List.mem_cons_self (hok e)

theorem Calls.complete (h : Calls job results s) (hok : ∀ e, .error e ∉ results) :
    s.Complete job := by
  refine ⟨h.reached.sound.1, ?_⟩
  intro d hd
  exact ((h.finished hok).1.completes d hd).resolve_left List.not_mem_nil

theorem Calls.exists_result {name : String} (h : Calls job results s)
    (hok : ∀ e, .error e ∉ results) (hk : name ∈ s.registry.structs.keys) :
    ∃ τ a, .ok τ ∈ results ∧ τ.struct? = some a ∧
      Relation.ReflTransGen s.registry.structs.Mentions a name := by
  have hc := h.complete hok
  obtain ⟨d, hd, rfl⟩ := Registry.mem_names.mp (hc.sound.consistent.structs name hk)
  obtain ⟨l, τ, hτ, ht, hp⟩ := (h.finished hok).2 d hd
  obtain ⟨a, ha, hreach⟩ := hc.reaches_struct ht hp (hc.sound.consistent.nameOf?_of_mem hd)
  exact ⟨τ, a, hτ, ha, hreach⟩

/-- A struct whose slots are filled, so that it is closed next, still counts as open. -/
theorem Slots.openStructs_pos {k : Nat} {l : Location} {slots : List Slot} {registry : Registry}
    {events : List Event} {fields : Dict String Field}
    (hf : Slots (walk job k) l slots ∅ (s.opened registry events) (.ok fields) s') :
    0 < s'.openStructs := by
  have hfin : (s.opened registry events).Finished s' := hf.after fun _ _ _ _ _ _ => walk_after
  have hopen : s'.openStructs = s.openStructs + 1 := hfin.openStructs
  omega

/-- What is known between calls, whichever of them failed: no target is entered, the open structs
are counted, and every name that stands anywhere has been given to a node. Without failures no
struct is open, every name that stands anywhere is that of a stored struct, and the returned types
lead to all stored structs. -/
theorem Calls.output_closed (h : Calls job results s) :
    s.inFlight = [] ∧ s.openStructs = s.registry.undefined.length ∧
      (∀ {s₀ s₁ : Synthesis} {k l slots registry events fields},
        Slots (walk job k) l slots ∅ (s₀.opened registry events) (.ok fields) s₁ →
        0 < s₁.openStructs) ∧
      (∀ name, s.Occurs results name → name ∈ s.registry.names) ∧
      ((∀ e, .error e ∉ results) → s.openStructs = 0 ∧
        (∀ name, s.Occurs results name → name ∈ s.registry.structs.keys) ∧
        ∀ name ∈ s.registry.structs.keys, ∃ τ a, .ok τ ∈ results ∧ τ.struct? = some a ∧
          Relation.ReflTransGen s.registry.structs.Mentions a name) := by
  refine ⟨h.reached.sound.2, h.openStructs_eq, Slots.openStructs_pos, fun _ => h.name_mem, ?_⟩
  intro hok
  have hc := h.complete hok
  refine ⟨(h.finished hok).1.openStructs, ?_, fun _ => h.exists_result hok⟩
  intro name ho
  exact hc.mem_keys (h.name_mem ho)

def unfinished : Job where
  documents := [{
    id := ""
    root := Written.schema
      { Sample.named "object" with
        title := some "Order"
        properties := [("total", Sample.named "money")]
        definitions := [("again", Sample.referring "#")] } }]

theorem unfinished_output_closed :
    (∃ s, Calls unfinished
        [.ok (.struct "Order"), .error (.invalidShape "#/properties/total" "money")] s ∧
      s.inFlight = [] ∧ s.openStructs = 1 ∧ s.registry.undefined.length = 1 ∧
      "Order" ∈ s.registry.names) ∧
    ∃ s, Calls samples [.ok (.slice (.struct "Customer")), .ok (.struct "Order")] s ∧
      s.openStructs = 0 ∧ "Order" ∈ s.registry.structs.keys := by
  constructor
  · have hagain : unfinished.nodeAt? ((Location.root 0).join (.definition "again")) = some _ := rfl
    have h : Calls unfinished _ _ := .node (.root .start 0) hagain "again"
    obtain ⟨hflight, hopen, -, hname, -⟩ := h.output_closed
    refine ⟨_, h, hflight, rfl, hopen.symm, ?_⟩
    exact hname "Order" (.inl ⟨_, List.mem_cons_self, rfl⟩)
  · have horder : (synthesizeRoot samples 0 (Synthesis.start samples.options)).1 =
        .ok (.struct "Order") := by decide +kernel
    have hcustomers : (synthesizeRoot samples 1
        (synthesizeRoot samples 0 (Synthesis.start samples.options)).2).1 =
        .ok (.slice (.struct "Customer")) := by decide +kernel
    have h : Calls samples _ _ := .root (.root .start 0) 1
    rw [horder, hcustomers] at h
    refine ⟨_, h, ?_⟩
    obtain ⟨hopen, hkey, -⟩ := h.output_closed.2.2.2.2 (by simp)
    refine ⟨hopen, hkey "Order" (.inl ⟨.struct "Order", ?_, rfl⟩)⟩
    exact List.mem_cons_of_mem _ List.mem_cons_self

end Synthesis

end SchemaStructs
