import SchemaStructs.Proofs.Registry
import SchemaStructs.Proofs.Step

namespace SchemaStructs.Synthesis

structure Grown (s s' : Synthesis) : Prop where
  registry : s.registry.Grows s'.registry
  inFlight : s'.inFlight = s.inFlight

structure Finished (s s' : Synthesis) : Prop extends Grown s s' where
  openStructs : s'.openStructs = s.openStructs
  completes : s.registry.Completes s'.registry

def After {α : Type} (s : Synthesis) (r : Except CompileError α) (s' : Synthesis) : Prop :=
  match r with
  | .ok _ => s.Finished s'
  | .error _ => s.Grown s'

variable {s s₁ s' : Synthesis}

theorem Grown.refl (s : Synthesis) : s.Grown s := ⟨.refl _, rfl⟩

theorem Grown.trans (h : s.Grown s₁) (h' : s₁.Grown s') : s.Grown s' :=
  ⟨h.registry.trans h'.registry, h'.inFlight.trans h.inFlight⟩

theorem Finished.refl (s : Synthesis) : s.Finished s := ⟨.refl s, rfl, .refl _⟩

theorem Finished.trans (h : s.Finished s₁) (h' : s₁.Finished s') : s.Finished s' :=
  ⟨h.toGrown.trans h'.toGrown, h'.openStructs.trans h.openStructs,
    h.completes.trans h'.completes h'.registry⟩

theorem finished_marked (job : Job) (text : String) (here target : Location) :
    s.Finished (s.marked job text here target) := ⟨⟨.refl _, rfl⟩, rfl, .refl _⟩

theorem After.grown {α : Type} {r : Except CompileError α} (h : s.After r s') : s.Grown s' := by
  cases r with
  | error e => exact h
  | ok a => exact Finished.toGrown h

theorem After.map {α β : Type} {r : Except CompileError α} (f : α → β) (h : s.After r s') :
    s.After (r.map f) s' := by
  cases r with
  | error e => exact h
  | ok a => exact h

theorem Finished.then {α : Type} {r : Except CompileError α} (h : s.Finished s₁)
    (h' : s₁.After r s') : s.After r s' := by
  cases r with
  | error e => exact h.toGrown.trans h'
  | ok a => exact h.trans h'

theorem Grown.leave {target : Location} (h : (s.enter target).Grown s') : s.Grown s'.leave := by
  refine ⟨h.registry, ?_⟩
  simp [Synthesis.leave, h.inFlight, enter]

theorem Finished.leave {target : Location} (h : (s.enter target).Finished s') (τ : TypeDesc) :
    s.Finished (s'.leave.remember target τ) :=
  ⟨⟨h.registry, h.toGrown.leave.inFlight⟩, h.openStructs, h.completes⟩

section
variable {l : Location} {name origin base : String} {qualifier : Option String}
  {registry : Registry} {events : List Event}

theorem grown_opened (hl : s.registry.nameOf? l = none)
    (hd : s.registry.declare l base origin qualifier = .ok (name, registry, events)) :
    s.Grown (s.opened registry events) := by
  obtain ⟨rfl, -, -⟩ := Registry.declare_ok hl hd
  exact ⟨Registry.grows_record, rfl⟩

theorem Finished.closed {struct : Struct} (hl : s.registry.nameOf? l = none)
    (hd : s.registry.declare l base origin qualifier = .ok (name, registry, events))
    (h : (s.opened registry events).Finished s') (hname : struct.name = name) :
    s.Finished (s'.closed struct) := by
  have hg := (grown_opened hl hd).trans h.toGrown
  obtain ⟨rfl, hfree, -⟩ := Registry.declare_ok hl hd
  refine ⟨⟨hg.registry.define (hname ▸ hfree), hg.inFlight⟩, ?_, h.completes.define hname⟩
  have ho : s'.openStructs = s.openStructs + 1 := h.openStructs
  simp [Synthesis.closed, ho]

end

section
variable {job : Job} {w : Node → Location → String → Synth TypeDesc}

theorem Slots.after (hw : ∀ node l key s r s', w node l key s = (r, s') → s.After r s')
    {here : Location} {slots : List Slot} {fields : Dict String Field}
    {r : Except CompileError (Dict String Field)} (h : Slots w here slots fields s r s') :
    s.After r s' := by
  induction h with
  | nil => exact Finished.refl _
  | cons hw₁ _ ih => exact Finished.then (hw _ _ _ _ _ _ hw₁) ih
  | fail hw₁ => exact hw _ _ _ _ _ _ hw₁

theorem Step.after (hw : ∀ node l key s r s', w node l key s = (r, s') → s.After r s')
    {node : Node} {here : Location} {key : String} {r : Except CompileError TypeDesc}
    (h : Step job w node here key s r s') : s.After r s' := by
  cases h with
  | shape | unresolved | reopened | unnamed => exact Grown.refl _
  | leaf | known => exact Finished.refl _
  | items hk hw₁ | value hk hw₁ => exact (hw _ _ _ _ _ _ hw₁).map _
  | cached | forward => exact finished_marked _ _ _ _
  | cycle => exact (finished_marked _ _ _ _).toGrown
  | entered hk ht hc he hw₁ =>
    exact (finished_marked _ _ _ _).trans (Finished.leave (hw _ _ _ _ _ _ hw₁) _)
  | lost hk ht hc he hw₁ =>
    exact (finished_marked _ _ _ _).toGrown.trans (Grown.leave (hw _ _ _ _ _ _ hw₁))
  | built hs hname hd hf => exact Finished.closed hname hd (hf.after hw) rfl
  | unbuilt hs hname hd hf => exact (grown_opened hname hd).trans (hf.after hw)

theorem walk_after {n : Nat} {node : Node} {here : Location} {key : String}
    {r : Except CompileError TypeDesc} (h : walk job n node here key s = (r, s')) :
    s.After r s' := by
  induction n generalizing node here key s r s' with
  | zero =>
    cases h
    exact Grown.refl _
  | succ n ih => exact (walk_succ_iff.mp h).after fun _ _ _ _ _ _ => ih

end

end SchemaStructs.Synthesis
