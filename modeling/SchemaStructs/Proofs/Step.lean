import SchemaStructs.Proofs.Typing

namespace SchemaStructs

namespace Synth

variable {α β : Type} {x : Synth α} {f : α → Synth β} {s s' : Synthesis}

theorem bind_ok {a : α} (h : x s = (.ok a, s')) : (x >>= f) s = f a s' := by
  simp [bind, ExceptT.bind, ExceptT.mk, StateT.bind, ExceptT.bindCont, h]

theorem bind_error {e : CompileError} (h : x s = (.error e, s')) :
    (x >>= f) s = (.error e, s') := by
  simp [bind, ExceptT.bind, ExceptT.mk, StateT.bind, ExceptT.bindCont, h]
  rfl

theorem get_bind (f : Synthesis → Synth β) : (get >>= f) s = f s s := rfl

theorem lift_apply (x : Except CompileError α) : (liftM x : Synth α) s = (x, s) := rfl

theorem bind_map {x : Synth TypeDesc} {r : Except CompileError TypeDesc}
    {f : TypeDesc → TypeDesc} (h : x s = (r, s')) :
    (x >>= fun τ => (return f τ : Synth TypeDesc)) s = (r.map f, s') := by
  cases r with
  | error e => exact bind_error h
  | ok τ => exact bind_ok h

theorem map_eq_ok {ε : Type} {r : Except ε α} {f : α → β} {b : β} (h : r.map f = .ok b) :
    ∃ a, r = .ok a ∧ f a = b := by
  cases r with
  | error e => cases h
  | ok a => exact ⟨a, rfl, Except.ok.inj h⟩

theorem eq_ok_of_toOption {ε : Type} {r : Except ε α} {a : α} (h : r.toOption = some a) :
    r = .ok a := by
  cases r with
  | error e => cases h
  | ok b => exact congrArg Except.ok (Option.some.inj h)

theorem map_eq_error {r : Except CompileError α} {f : α → β} {e : CompileError}
    (h : r.map f = .error e) : r = .error e := by
  cases r with
  | error e' =>
    cases h
    rfl
  | ok a => cases h

end Synth

namespace Synthesis

def opened (s : Synthesis) (registry : Registry) (events : List Event) : Synthesis :=
  { s.note events with registry, openStructs := s.openStructs + 1 }

def closed (s : Synthesis) (struct : Struct) : Synthesis :=
  { s.note (s.registry.define struct).2 with
    registry := (s.registry.define struct).1, openStructs := s.openStructs - 1 }

def marked (s : Synthesis) (job : Job) (text : String) (here target : Location) : Synthesis :=
  s.note [.resolved text (Reference.documentId job.documents here.document) target]

section
variable (w : Node → Location → String → Synth TypeDesc) (here : Location)

def fill : List Slot → Dict String Field → Synth (Dict String Field)
  | [], fields => return fields
  | slot :: rest, fields => do
    let type ← w slot.node (here.join slot.segment) slot.key
    fill rest (slot.add fields type)

inductive Slots : List Slot → Dict String Field → Synthesis →
    Except CompileError (Dict String Field) → Synthesis → Prop
  | nil {fields : Dict String Field} {s : Synthesis} : Slots [] fields s (.ok fields) s
  | cons {slot : Slot} {rest : List Slot} {fields : Dict String Field} {τ : TypeDesc}
    {s s₁ s' : Synthesis} {r : Except CompileError (Dict String Field)}
    (hw : w slot.node (here.join slot.segment) slot.key s = (.ok τ, s₁))
    (h : Slots rest (slot.add fields τ) s₁ r s') : Slots (slot :: rest) fields s r s'
  | fail {slot : Slot} {rest : List Slot} {fields : Dict String Field} {e : CompileError}
    {s s' : Synthesis} (hw : w slot.node (here.join slot.segment) slot.key s = (.error e, s')) :
    Slots (slot :: rest) fields s (.error e) s'

variable {w here}

theorem fill_iff {slots : List Slot} {fields : Dict String Field} {s s' : Synthesis}
    {r : Except CompileError (Dict String Field)} :
    fill w here slots fields s = (r, s') ↔ Slots w here slots fields s r s' := by
  constructor
  · intro h
    induction slots generalizing fields s with
    | nil =>
      cases h
      exact .nil
    | cons slot rest ih =>
      rw [fill] at h
      cases hw : w slot.node (here.join slot.segment) slot.key s with
      | mk result s₁ =>
        cases result with
        | error e =>
          rw [Synth.bind_error hw] at h
          cases h
          exact .fail hw
        | ok τ =>
          rw [Synth.bind_ok hw] at h
          exact .cons hw (ih h)
  · intro h
    induction h with
    | nil => rfl
    | cons hw _ ih => rwa [fill, Synth.bind_ok hw]
    | fail hw => rw [fill, Synth.bind_error hw]

section
variable {I : Synthesis → Prop} {slots : List Slot} {fields : Dict String Field} {s s' : Synthesis}

theorem Slots.keeps {r : Except CompileError (Dict String Field)}
    (h : Slots w here slots fields s r s')
    (hw : ∀ slot ∈ slots, ∀ s r s', w slot.node (here.join slot.segment) slot.key s = (r, s') →
      I s → I s') (hi : I s) : I s' := by
  induction h with
  | nil => exact hi
  | cons hw₁ _ ih =>
    apply ih
    · exact fun slot hm => hw slot (List.mem_cons_of_mem _ hm)
    · exact hw _ List.mem_cons_self _ _ _ hw₁ hi
  | fail hw₁ => exact hw _ List.mem_cons_self _ _ _ hw₁ hi

theorem Slots.exists_error {e : CompileError} (h : Slots w here slots fields s (.error e) s')
    (hw : ∀ slot ∈ slots, ∀ s τ s', w slot.node (here.join slot.segment) slot.key s = (.ok τ, s') →
      I s → I s') (hi : I s) :
    ∃ slot ∈ slots, ∃ s₁, I s₁ ∧
      w slot.node (here.join slot.segment) slot.key s₁ = (.error e, s') := by
  generalize hr : Except.error e = r at h
  induction h with
  | nil => cases hr
  | cons hw₁ _ ih =>
    have hi₁ := hw _ List.mem_cons_self _ _ _ hw₁ hi
    obtain ⟨slot, hm, s₁, hi', hfail⟩ :=
      ih (fun slot hm => hw slot (List.mem_cons_of_mem _ hm)) hi₁ hr
    exact ⟨slot, List.mem_cons_of_mem _ hm, s₁, hi', hfail⟩
  | fail hw₁ =>
    cases hr
    exact ⟨_, List.mem_cons_self, _, hi, hw₁⟩

end

theorem fill_append (a b : List Slot) (fields : Dict String Field) :
    fill w here (a ++ b) fields = fill w here a fields >>= fill w here b := by
  induction a generalizing fields with
  | nil => simp [fill]
  | cons slot rest ih => simp [fill, ih]

theorem propertyFields_eq_fill (n : Node) (ps : List (String × Node)) (fields : Dict String Field) :
    propertyFields w n here ps fields = fill w here (ps.map (Slot.ofProperty n)) fields := by
  induction ps generalizing fields with
  | nil => rfl
  | cons p rest ih =>
    obtain ⟨key, property⟩ := p
    simp only [propertyFields, List.map_cons, fill, ih]
    rfl

theorem extraField_eq_fill (name : String) (extra : Option Node) (fields : Dict String Field) :
    extraField w here name extra fields =
      fill w here (extra.toList.map (Slot.ofExtra name)) fields := by
  cases extra with
  | none => rfl
  | some e => rfl

end

inductive Step (job : Job) (w : Node → Location → String → Synth TypeDesc) (node : Node)
    (here : Location) (key : String) (s : Synthesis) :
    Except CompileError TypeDesc → Synthesis → Prop
  | shape (hk : node.kind? = none) :
    Step job w node here key s (.error (.invalidShape (job.origin here) node.typeName)) s
  | leaf {τ : TypeDesc} (ht : node.leafType? = some τ) : Step job w node here key s (.ok τ) s
  | items {items : Node} {r : Except CompileError TypeDesc} {s' : Synthesis}
    (hk : node.kind? = some (.array (some items)))
    (hw : w items (here.join .items) key s = (r, s')) :
    Step job w node here key s (r.map .slice) s'
  | value {value : Node} {r : Except CompileError TypeDesc} {s' : Synthesis}
    (hk : node.kind? = some (.map (some value)))
    (hw : w value (here.join .additional) key s = (r, s')) :
    Step job w node here key s (r.map .map) s'
  | unresolved {text : String} {e : CompileError} (hk : node.kind? = some (.reference text))
    (ht : Reference.resolve job.documents text here.document = .error e) :
    Step job w node here key s (.error e) s
  | cached {text : String} {target : Target} {τ : TypeDesc}
    (hk : node.kind? = some (.reference text))
    (ht : Reference.resolve job.documents text here.document = .ok target)
    (hc : s.resolvedType? target.location = some τ) :
    Step job w node here key s (.ok τ) (s.marked job text here target.location)
  | forward {text name : String} {target : Target}
    (hk : node.kind? = some (.reference text))
    (ht : Reference.resolve job.documents text here.document = .ok target)
    (hc : s.resolvedType? target.location = none)
    (he : s.reentry job.options.recursive target.location = .forward name) :
    Step job w node here key s (.ok (.struct name)) (s.marked job text here target.location)
  | cycle {text : String} {target : Target}
    (hk : node.kind? = some (.reference text))
    (ht : Reference.resolve job.documents text here.document = .ok target)
    (hc : s.resolvedType? target.location = none)
    (he : s.reentry job.options.recursive target.location = .cycle) :
    Step job w node here key s
      (.error (.cyclicReference ((s.cycleThrough target.location).map job.origin)))
      (s.marked job text here target.location)
  | entered {text : String} {target : Target} {τ : TypeDesc} {s' : Synthesis}
    (hk : node.kind? = some (.reference text))
    (ht : Reference.resolve job.documents text here.document = .ok target)
    (hc : s.resolvedType? target.location = none)
    (he : s.reentry job.options.recursive target.location = .enter)
    (hw : w target.node target.location (job.targetKey target.location)
      ((s.marked job text here target.location).enter target.location) = (.ok τ, s')) :
    Step job w node here key s (.ok τ) (s'.leave.remember target.location τ)
  | lost {text : String} {target : Target} {e : CompileError} {s' : Synthesis}
    (hk : node.kind? = some (.reference text))
    (ht : Reference.resolve job.documents text here.document = .ok target)
    (hc : s.resolvedType? target.location = none)
    (he : s.reentry job.options.recursive target.location = .enter)
    (hw : w target.node target.location (job.targetKey target.location)
      ((s.marked job text here target.location).enter target.location) = (.error e, s')) :
    Step job w node here key s (.error e) s'.leave
  | known {name : String} (hs : node.isStruct) (hname : s.registry.nameOf? here = some name)
    (hr : job.options.recursive = false → s.registry.isDefined here = true) :
    Step job w node here key s (.ok (.struct name)) s
  | reopened {name : String} (hs : node.isStruct) (hname : s.registry.nameOf? here = some name)
    (hr : job.options.recursive = false) (hd : s.registry.isDefined here = false) :
    Step job w node here key s (.error (.cyclicReference [job.origin here, job.origin here])) s
  | unnamed {e : CompileError} (hs : node.isStruct) (hname : s.registry.nameOf? here = none)
    (hd : s.registry.declare here (Naming.typeName node.head.title key) (job.origin here)
      (job.stem? here.document) = .error e) :
    Step job w node here key s (.error e) s
  | built {name : String} {registry : Registry} {events : List Event} {fields : Dict String Field}
    {s' : Synthesis} (hs : node.isStruct) (hname : s.registry.nameOf? here = none)
    (hd : s.registry.declare here (Naming.typeName node.head.title key) (job.origin here)
      (job.stem? here.document) = .ok (name, registry, events))
    (hf : Slots w here (node.slots name) ∅ (s.opened registry events) (.ok fields) s') :
    Step job w node here key s (.ok (.struct name))
      (s'.closed ⟨name, job.origin here, node.head.description, fields⟩)
  | unbuilt {name : String} {registry : Registry} {events : List Event} {e : CompileError}
    {s' : Synthesis} (hs : node.isStruct) (hname : s.registry.nameOf? here = none)
    (hd : s.registry.declare here (Naming.typeName node.head.title key) (job.origin here)
      (job.stem? here.document) = .ok (name, registry, events))
    (hf : Slots w here (node.slots name) ∅ (s.opened registry events) (.error e) s') :
    Step job w node here key s (.error e) s'

section
variable {job : Job} {w : Node → Location → String → Synth TypeDesc} {node : Node}
  {here : Location} {key : String} {s s' : Synthesis} {r : Except CompileError TypeDesc}

theorem step_of_leafType? {τ : TypeDesc} (h : node.leafType? = some τ) :
    step job w node here key = pure τ := by
  unfold Node.leafType? at h
  split at h <;> simp_all [step]

theorem step_of_isStruct (h : node.isStruct) :
    step job w node here key = struct job w node here key node.extra? := by
  obtain ⟨extra, hk⟩ | hk := Node.isStruct_iff.mp h
  · simp [step, hk, Node.extra?_of_kind?_struct hk]
  · simp [step, hk, (Node.parts_of_kind?_emptyObject hk).2]

theorem reference_of_resolve {text : String} {target : Target}
    (ht : Reference.resolve job.documents text here.document = .ok target) :
    reference job w text here s =
      (match s.resolvedType? target.location with
        | some type => return type
        | none =>
          match s.reentry job.options.recursive target.location with
          | .forward name => return .struct name
          | .cycle => throw (.cyclicReference ((s.cycleThrough target.location).map job.origin))
          | .enter => do
            let key := job.targetKey target.location
            let type ← within target.location (w target.node target.location key)
            modify fun s => s.remember target.location type
            return type : Synth TypeDesc) (s.marked job text here target.location) := by
  have hr : resolve job text here.document s =
      (.ok target, s.marked job text here target.location) := by
    simp only [resolve, ht]
    rfl
  rw [reference, Synth.bind_ok hr]
  rfl

theorem within_apply {step : Synth TypeDesc} {target : Location}
    (h : step (s.enter target) = (r, s')) : within target step s = (r, s'.leave) := by
  simp only [within, h]

theorem openStruct_of_error {e : CompileError}
    (hd : s.registry.declare here (Naming.typeName node.head.title key) (job.origin here)
      (job.stem? here.document) = .error e) : openStruct job node here key s = (.error e, s) := by
  rw [openStruct, Synth.get_bind, hd]
  exact Synth.bind_error (Synth.lift_apply _)

theorem openStruct_of_ok {name : String} {registry : Registry} {events : List Event}
    (hd : s.registry.declare here (Naming.typeName node.head.title key) (job.origin here)
      (job.stem? here.document) = .ok (name, registry, events)) :
    openStruct job node here key s = (.ok name, s.opened registry events) := by
  rw [openStruct, Synth.get_bind, hd]
  exact Synth.bind_ok (Synth.lift_apply _)

theorem struct_of_declare {name : String} {registry : Registry}
    {events : List Event} (hname : s.registry.nameOf? here = none)
    (hd : s.registry.declare here (Naming.typeName node.head.title key) (job.origin here)
      (job.stem? here.document) = .ok (name, registry, events)) :
    struct job w node here key node.extra? s =
      (do
        let fields ← fill w here (node.slots name) ∅
        closeStruct ⟨name, job.origin here, node.head.description, fields⟩
        return .struct name : Synth TypeDesc) (s.opened registry events) := by
  have hf : (do
      let fields ← propertyFields w node here node.properties ∅
      extraField w here name node.extra? fields) = fill w here (node.slots name) ∅ := by
    simp only [propertyFields_eq_fill, extraField_eq_fill, ← fill_append, Node.slots]
  rw [struct, Synth.get_bind, hname]
  rw [← hf, bind_assoc]
  exact Synth.bind_ok (openStruct_of_ok hd)

theorem Step.eq (h : Step job w node here key s r s') : step job w node here key s = (r, s') := by
  cases h with
  | shape hk => simp only [step, hk]; rfl
  | leaf ht => rw [step_of_leafType? ht]; rfl
  | items hk hw => simpa only [step, hk] using Synth.bind_map hw
  | value hk hw => simpa only [step, hk] using Synth.bind_map hw
  | unresolved hk ht =>
    simp only [step, hk, reference, resolve, ht]
    rfl
  | cached hk ht hc =>
    simp only [step, hk, reference_of_resolve ht, hc]
    rfl
  | forward hk ht hc he =>
    simp only [step, hk, reference_of_resolve ht, hc, he]
    rfl
  | cycle hk ht hc he =>
    simp only [step, hk, reference_of_resolve ht, hc, he]
    rfl
  | entered hk ht hc he hw =>
    simp only [step, hk, reference_of_resolve ht, hc, he]
    exact Synth.bind_ok (within_apply hw)
  | lost hk ht hc he hw =>
    simp only [step, hk, reference_of_resolve ht, hc, he]
    exact Synth.bind_error (within_apply hw)
  | known hs hname hr =>
    rw [step_of_isStruct hs, struct, Synth.get_bind]
    simp only [hname]
    cases hrec : job.options.recursive with
    | true => rfl
    | false => rw [hr hrec]; rfl
  | reopened hs hname hr hd =>
    rw [step_of_isStruct hs, struct, Synth.get_bind]
    simp only [hname, hr, hd]
    rfl
  | unnamed hs hname hd =>
    rw [step_of_isStruct hs, struct, Synth.get_bind]
    simp only [hname]
    exact Synth.bind_error (openStruct_of_error hd)
  | built hs hname hd hf =>
    rw [step_of_isStruct hs, struct_of_declare hname hd]
    exact Synth.bind_ok (fill_iff.mpr hf)
  | unbuilt hs hname hd hf =>
    rw [step_of_isStruct hs, struct_of_declare hname hd]
    exact Synth.bind_error (fill_iff.mpr hf)

theorem Step.total_of_resolve {text : String} {target : Target}
    (hk : node.kind? = some (.reference text))
    (ht : Reference.resolve job.documents text here.document = .ok target) :
    ∃ r s', Step job w node here key s r s' := by
  cases hc : s.resolvedType? target.location with
  | some τ => exact ⟨_, _, .cached hk ht hc⟩
  | none =>
    cases he : s.reentry job.options.recursive target.location with
    | forward name => exact ⟨_, _, .forward hk ht hc he⟩
    | cycle => exact ⟨_, _, .cycle hk ht hc he⟩
    | enter =>
      cases hw : w target.node target.location (job.targetKey target.location)
          ((s.marked job text here target.location).enter target.location) with
      | mk result s₁ =>
        cases result with
        | error e => exact ⟨_, _, .lost hk ht hc he hw⟩
        | ok τ => exact ⟨_, _, .entered hk ht hc he hw⟩

theorem Step.total_of_isStruct (hs : node.isStruct) :
    ∃ r s', Step job w node here key s r s' := by
  cases hname : s.registry.nameOf? here with
  | some name =>
    by_cases hr : job.options.recursive = false → s.registry.isDefined here = true
    · exact ⟨_, _, .known hs hname hr⟩
    · simp only [Classical.not_imp, Bool.not_eq_true] at hr
      exact ⟨_, _, .reopened hs hname hr.1 hr.2⟩
  | none =>
    cases hd : s.registry.declare here (Naming.typeName node.head.title key) (job.origin here)
        (job.stem? here.document) with
    | error e => exact ⟨_, _, .unnamed hs hname hd⟩
    | ok named =>
      obtain ⟨name, registry, events⟩ := named
      cases hf : fill w here (node.slots name) ∅ (s.opened registry events) with
      | mk result s₁ =>
        have hf := fill_iff.mp hf
        cases result with
        | error e => exact ⟨_, _, .unbuilt hs hname hd hf⟩
        | ok fields => exact ⟨_, _, .built hs hname hd hf⟩

theorem Step.total_of_leaf (h : node.leafType?.isSome) :
    ∃ r s', Step job w node here key s r s' := by
  obtain ⟨τ, ht⟩ := Option.isSome_iff_exists.mp h
  exact ⟨_, _, .leaf ht⟩

theorem Step.total : ∃ r s', Step job w node here key s r s' := by
  cases hk : node.kind? with
  | none => exact ⟨_, _, .shape hk⟩
  | some kind =>
    cases kind with
    | reference text =>
      cases ht : Reference.resolve job.documents text here.document with
      | error e => exact ⟨_, _, .unresolved hk ht⟩
      | ok target => exact total_of_resolve hk ht
    | primitive p => exact total_of_leaf (by simp [Node.leafType?, hk])
    | any => exact total_of_leaf (by simp [Node.leafType?, hk])
    | array items =>
      cases items with
      | none => exact total_of_leaf (by simp [Node.leafType?, hk])
      | some items => exact ⟨_, _, .items hk rfl⟩
    | map value =>
      cases value with
      | none => exact total_of_leaf (by simp [Node.leafType?, hk])
      | some value => exact ⟨_, _, .value hk rfl⟩
    | struct extra => exact total_of_isStruct (by simp [Node.isStruct, hk])
    | emptyObject => exact total_of_isStruct (by simp [Node.isStruct, hk])

theorem step_iff : step job w node here key s = (r, s') ↔ Step job w node here key s r s' := by
  refine ⟨fun h => ?_, Step.eq⟩
  obtain ⟨r₁, s₁, hs⟩ : ∃ r s', Step job w node here key s r s' := Step.total
  have he := hs.eq.symm.trans h
  cases he
  exact hs

theorem walk_succ_iff {n : Nat} : walk job (n + 1) node here key s = (r, s') ↔
    Step job (walk job n) node here key s r s' :=
  step_iff

end

end Synthesis

end SchemaStructs
