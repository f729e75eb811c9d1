import SchemaStructs.Proofs.History

namespace SchemaStructs.Synthesis

structure Retained (s s' : Synthesis) : Prop where
  names : ∀ l name, s.registry.nameOf? l = some name → s'.registry.nameOf? l = some name
  structs : ∀ name struct, s.registry.structs.get? name = some struct →
    s'.registry.structs.get? name = some struct
  types : ∀ l τ, s.resolvedType? l = some τ → s'.resolvedType? l = some τ

/-- The states that calls lead to, one after the other. A call that fails counts too, and so does
one for a node that is not where it is said to be, or one with any number of steps. -/
inductive Called (job : Job) : Synthesis → Prop
  | start : Called job (start job.options)
  | root {s : Synthesis} (h : Called job s) (document : Nat) :
    Called job (synthesizeRoot job document s).2
  | node {s : Synthesis} (h : Called job s) (steps : Nat) (node : Node) (l : Location)
    (key : String) : Called job (walk job steps node l key s).2

structure Carried (s s' : Synthesis) : Prop where
  consistent : s.registry.Consistent → s'.registry.Consistent
  types : ∀ l τ, s.resolvedType? l = some τ → s'.resolvedType? l = some τ

variable {job : Job} {s s₁ s' : Synthesis} {node : Node} {here target : Location} {key : String}

theorem Carried.refl (s : Synthesis) : s.Carried s := ⟨id, fun _ _ => id⟩

theorem Carried.trans (h : s.Carried s₁) (h' : s₁.Carried s') : s.Carried s' :=
  ⟨h'.consistent ∘ h.consistent, fun l τ hl => h'.types l τ (h.types l τ hl)⟩

theorem resolvedType?_remember (s : Synthesis) (target l : Location) (τ : TypeDesc) :
    (s.remember target τ).resolvedType? l =
      if target = l then some τ else s.resolvedType? l := by
  by_cases h : target = l <;> simp [remember, resolvedType?, h]

theorem Carried.remember (h : s.Carried s') (hnone : s.resolvedType? target = none)
    (τ : TypeDesc) : s.Carried (s'.remember target τ) := by
  refine ⟨h.consistent, ?_⟩
  intro l τ' hl
  have hne : target ≠ l := by
    rintro rfl
    cases hnone.symm.trans hl
  rw [resolvedType?_remember, if_neg hne]
  exact h.types l τ' hl

section
variable {base origin name : String} {qualifier : Option String} {registry : Registry}
  {events : List Event} (hl : s.registry.nameOf? here = none)
  (hd : s.registry.declare here base origin qualifier = .ok (name, registry, events))

include hl hd

theorem carried_opened : s.Carried (s.opened registry events) := by
  obtain ⟨rfl, hfree, -⟩ := Registry.declare_ok hl hd
  exact ⟨fun hs => hs.record hl hfree, fun _ _ => id⟩

theorem Carried.closed {struct : Struct} (h : s.Carried s')
    (hg : (s.opened registry events).Grown s') (hname : struct.name = name) :
    s.Carried (s'.closed struct) := by
  refine ⟨?_, h.types⟩
  intro hs
  apply (h.consistent hs).define
  rw [hname]
  obtain ⟨rfl, -, -⟩ := Registry.declare_ok hl hd
  apply hg.registry.names_subset
  exact Registry.mem_names.mpr ⟨_, List.mem_append_right _ (List.mem_singleton_self _), rfl⟩

end

theorem walk_carried {n : Nat} {r : Except CompileError TypeDesc}
    (h : walk job n node here key s = (r, s')) : s.Carried s' := by
  induction n generalizing node here key s r s' with
  | zero =>
    cases h
    exact .refl _
  | succ n ih =>
    have hslots : ∀ {slots fields s r s'}, Slots (walk job n) here slots fields s r s' →
        s.Carried s' := by
      intro slots fields s r s' hf
      refine hf.keeps (I := s.Carried) ?_ (.refl s)
      intro slot _ s₁ r s₂ hw hs₁
      exact hs₁.trans (ih hw)
    cases walk_succ_iff.mp h with
    | shape | leaf | unresolved | known | reopened | unnamed => exact .refl _
    | cached | forward | cycle => exact ⟨id, fun _ _ => id⟩
    | items hk hw | value hk hw => exact ih hw
    | lost hk ht hc he hw => exact ⟨(ih hw).consistent, (ih hw).types⟩
    | @entered _ _ _ s₁ hk ht hc he hw =>
      -- The walk may have remembered a type for the target too, but none was there before it.
      have hleave : s.Carried s₁.leave := ⟨(ih hw).consistent, (ih hw).types⟩
      exact hleave.remember hc _
    | built hs hname hd hf =>
      have hg := (hf.after fun _ _ _ _ _ _ => walk_after).grown
      exact ((carried_opened hname hd).trans (hslots hf)).closed hname hd hg rfl
    | unbuilt hs hname hd hf => exact (carried_opened hname hd).trans (hslots hf)

theorem walk_retained {n : Nat} {r : Except CompileError TypeDesc}
    (h : walk job n node here key s = (r, s')) (hs : s.registry.Consistent) : s.Retained s' := by
  have hg := (walk_after h).grown.registry
  refine ⟨fun _ _ => hg.nameOf?, ?_, (walk_carried h).types⟩
  intro name struct hstored
  have hname : name ∈ s.registry.names := hs.structs name (Dict.mem_keys_iff.mpr ⟨_, hstored⟩)
  exact (hg.structs name hname).trans hstored

theorem synthesizeRoot_cases (job : Job) (document : Nat) (s : Synthesis) :
    (∃ node, synthesizeRoot job document s =
      walk job job.allowance node (.root document) (job.rootKey document) s) ∨
      (synthesizeRoot job document s).2 = s := by
  obtain hlt | hle := Nat.lt_or_ge document job.documents.length
  · obtain ⟨node, -, hroot⟩ := exists_root hlt
    exact .inl ⟨node, congrFun hroot s⟩
  · rw [synthesizeRoot_of_le hle]
    exact .inr rfl

theorem Called.consistent (h : Called job s) : s.registry.Consistent := by
  induction h with
  | start =>
    have hs : (Synthesis.start job.options).Sound job := sound_start _
    exact hs.consistent
  | node _ steps node l key ih => exact (walk_carried rfl).consistent ih
  | @root s _ document ih =>
    obtain ⟨node, hroot⟩ | hsame := synthesizeRoot_cases job document s
    · rw [hroot]
      exact (walk_carried rfl).consistent ih
    · rwa [hsame]

/-- Whatever is remembered of a target is its type, so all that was ever remembered agrees. -/
theorem Sound.resolvedType?_of_mem {e : Location × TypeDesc} (h : s.Sound job)
    (he : e ∈ s.resolved) : s.resolvedType? e.1 = some e.2 := by
  cases hc : s.resolvedType? e.1 with
  | none => simpa using List.find?_eq_none.mp (Option.map_eq_none_iff.mp hc) e he
  | some τ => rw [(h.hasType_of_resolvedType? hc).unique (h.cached e he)]

/-- No call, failed or not, changes a name, a struct or a remembered type that was there before it.
A call of `synthesize` is a walk with the allowance for its steps. Nor is anything changed within a
call, where calls are made for nodes that are where they are said to be: all types that were ever
remembered for a target agree, and under each name one struct was stored. -/
theorem Called.retained (h : Called job s) :
    (∀ document, s.Retained (synthesizeRoot job document s).2) ∧
      (∀ steps node l key, s.Retained (walk job steps node l key s).2) ∧
      (Reached job s → (∀ e ∈ s.resolved, s.resolvedType? e.1 = some e.2) ∧
        (s.log.filterMap Event.storedName?).Nodup) := by
  have hs : s.registry.Consistent := h.consistent
  refine ⟨?_, fun _ _ _ _ => walk_retained rfl hs, ?_⟩
  · intro document
    obtain ⟨node, hroot⟩ | hsame := synthesizeRoot_cases job document s
    · rw [hroot]
      exact walk_retained rfl hs
    · rw [hsame]
      exact ⟨fun _ _ => id, fun _ _ => id, fun _ _ => id⟩
  · intro hr
    have hsound : s.Sound job := hr.sound.1
    exact ⟨fun _ => hsound.resolvedType?_of_mem,
      hsound.reported.nodup_iff.mpr (Dict.nodup_keys _)⟩

def halfway : Job where
  documents := [{
    id := ""
    root := Written.schema
      { Sample.named "object" with
        title := some "Order"
        properties := [("lines", Sample.referring "#/definitions/line"),
          ("total", Sample.named "money")]
        definitions := [("line", Sample.named "object")] } }]

theorem halfway_retained :
    let line := (Location.root 0).join (.definition "line")
    ∃ s, Called halfway s ∧ s.openStructs = 1 ∧ s.resolvedType? line = some (.struct "Line") ∧
      (synthesizeRoot halfway 0 s).2.resolvedType? line = some (.struct "Line") ∧
      (synthesizeRoot halfway 0 s).2.registry.nameOf? (.root 0) = some "Order" := by
  intro line
  obtain ⟨s, hs⟩ : ∃ s, s = (synthesizeRoot halfway 0 (Synthesis.start halfway.options)).2 :=
    ⟨_, rfl⟩
  have hcalled : Called halfway s := by
    rw [hs]
    exact .root .start 0
  have hopen : s.openStructs = 1 := by
    rw [hs]
    decide +kernel
  have hline : s.resolvedType? line = some (.struct "Line") := by
    rw [hs]
    decide +kernel
  have horder : s.registry.nameOf? (.root 0) = some "Order" := by
    rw [hs]
    decide +kernel
  have h := hcalled.retained.1 0
  exact ⟨s, hcalled, hopen, hline, h.types _ _ hline, h.names _ _ horder⟩

end SchemaStructs.Synthesis
