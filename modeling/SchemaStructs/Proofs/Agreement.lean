import SchemaStructs.Proofs.Alike
import SchemaStructs.Proofs.Justification

namespace SchemaStructs

namespace Synthesis

/-- How two steps end side by side: with values and states that correspond, or both with an error.
Where the first goes too deep, nothing is said of the second. -/
inductive Agree {α β : Type} (M : Synthesis → Synthesis → Prop)
    (E : CompileError → CompileError → Prop) (A : α → β → Prop) :
    Except CompileError α × Synthesis → Except CompileError β × Synthesis → Prop
  | ok {a : α} {b : β} {t t' : Synthesis} (ha : A a b) (ht : M t t') :
    Agree M E A (.ok a, t) (.ok b, t')
  | error {e e' : CompileError} {t t' : Synthesis} (he : E e e') :
    Agree M E A (.error e, t) (.error e', t')
  | tooDeep {t : Synthesis} {q : Except CompileError β × Synthesis} :
    Agree M E A (.error .tooDeep, t) q

section
variable {α β γ δ : Type} {M M' : Synthesis → Synthesis → Prop}
  {E : CompileError → CompileError → Prop} {A : α → β → Prop} {B : γ → δ → Prop}
  {s s' : Synthesis}

theorem Agree.bind {x : Synth α} {y : Synth β} {f : α → Synth γ} {g : β → Synth δ}
    (h : Agree M E A (x s) (y s'))
    (hf : ∀ a b t t', A a b → M t t' → Agree M' E B (f a t) (g b t')) :
    Agree M' E B ((x >>= f) s) ((y >>= g) s') := by
  generalize hp : x s = p at h
  generalize hq : y s' = q at h
  cases h with
  | ok ha ht =>
    rw [Synth.bind_ok hp, Synth.bind_ok hq]
    exact hf _ _ _ _ ha ht
  | error he =>
    rw [Synth.bind_error hp, Synth.bind_error hq]
    exact .error he
  | tooDeep =>
    rw [Synth.bind_error hp]
    exact .tooDeep

theorem Agree.mono {A' : α → β → Prop} {p : Except CompileError α × Synthesis}
    {q : Except CompileError β × Synthesis} (h : Agree M E A p q)
    (hM : ∀ a b t t', p = (.ok a, t) → q = (.ok b, t') → A a b → M t t' → A' a b ∧ M' t t') :
    Agree M' E A' p q := by
  cases h with
  | ok ha ht => exact .ok (hM _ _ _ _ rfl rfl ha ht).1 (hM _ _ _ _ rfl rfl ha ht).2
  | error he => exact .error he
  | tooDeep => exact .tooDeep

theorem fill_agree {w w' : Node → Location → String → Synth TypeDesc} {here here' : Location}
    {F : Dict String Field → Dict String Field → Prop}
    (hadd : ∀ (slot : Slot) fields fields' τ, F fields fields' →
      F (slot.add fields τ) (slot.add fields' τ))
    {slots slots' : List Slot}
    (hslots : List.Forall₂ (fun a b => a.Matches b ∧ ∀ s s', M s s' →
      Agree M E Eq (w a.node (here.join a.segment) a.key s)
        (w' b.node (here'.join b.segment) b.key s')) slots slots')
    {fields fields' : Dict String Field} (hfields : F fields fields') (hs : M s s') :
    Agree M E F (fill w here slots fields s) (fill w' here' slots' fields' s') := by
  induction hslots generalizing fields fields' s s' with
  | nil => exact .ok hfields hs
  | cons hslot _ ih =>
    rw [fill, fill]
    apply Agree.bind (hslot.2 s s' hs)
    rintro τ _ t t' rfl ht
    rw [hslot.1.add]
    exact ih (hadd _ _ _ _ hfields) ht

theorem Agree.map {r r' : Except CompileError TypeDesc} (f : TypeDesc → TypeDesc)
    (h : Agree M E Eq (r, s) (r', s')) : Agree M E Eq (r.map f, s) (r'.map f, s') := by
  cases h with
  | ok ha ht => exact .ok (congrArg f ha) ht
  | error he => exact .error he
  | tooDeep => exact .tooDeep

end

theorem struct_of_unnamed {job : Job} {w : Node → Location → String → Synth TypeDesc}
    {node : Node} {here : Location} {key : String} {s : Synthesis}
    (hname : s.registry.nameOf? here = none) :
    struct job w node here key node.extra? s =
      (do
        let name ← openStruct job node here key
        let fields ← fill w here (node.slots name) ∅
        closeStruct ⟨name, job.origin here, node.head.description, fields⟩
        return .struct name : Synth TypeDesc) s := by
  rw [struct, Synth.get_bind, hname]
  simp only [propertyFields_eq_fill, extraField_eq_fill, Node.slots, fill_append, bind_assoc]

def WalksAgree (job job' : Job) (R : Location → String → Location → String → Prop)
    (M : Synthesis → Synthesis → Prop) (E : CompileError → CompileError → Prop)
    (k k' : Nat) : Prop :=
  ∀ l key l' key' n n' s s', R l key l' key' → job.nodeAt? l = some n →
    job'.nodeAt? l' = some n' → M s s' →
    Agree M E Eq (walk job k n l key s) (walk job' k' n' l' key' s')

/-- What it takes for the walks of two jobs to go in step. `R` says which nodes correspond, and with
which keys, `D` from which of them the walks go on in step, `Q` which targets of references
correspond, and `M` which states. -/
structure Simulates (job job' : Job) (D R : Location → String → Location → String → Prop)
    (Q : Location → Location → Prop) (M : Synthesis → Synthesis → Prop)
    (E : CompileError → CompileError → Prop) : Prop where
  recursive : job'.options.recursive = job.options.recursive
  alike : ∀ {l key l' key' n n'}, R l key l' key' → job.nodeAt? l = some n →
    job'.nodeAt? l' = some n' → n.Alike n'
  corresponds : ∀ {l key l' key'}, D l key l' key' → R l key l' key'
  items : ∀ {l key l' key' n m}, D l key l' key' → job.nodeAt? l = some n →
    n.kind? = some (.array (some m)) → R (l.join .items) key (l'.join .items) key'
  value : ∀ {l key l' key' n m}, D l key l' key' → job.nodeAt? l = some n →
    n.kind? = some (.map (some m)) → R (l.join .additional) key (l'.join .additional) key'
  slot : ∀ {l key l' key' n s s' name slot}, D l key l' key' → job.nodeAt? l = some n →
    n.isStruct → M s s' → s.registry.nameOf? l = none → slot ∈ n.slots name →
    R (l.join slot.segment) slot.key (l'.join slot.segment) slot.key
  target : ∀ {l key l' key' n n' text text' target}, D l key l' key' → job.nodeAt? l = some n →
    job'.nodeAt? l' = some n' → n.kind? = some (.reference text) →
    n'.kind? = some (.reference text') →
    Reference.resolve job.documents text l.document = .ok target →
    ∃ target', Reference.resolve job'.documents text' l'.document = .ok target' ∧
      Q target.location target'.location ∧
      R target.location (job.targetKey target.location) target'.location
        (job'.targetKey target'.location)
  unresolved : ∀ {l key l' key' n n' text text' e}, D l key l' key' → job.nodeAt? l = some n →
    job'.nodeAt? l' = some n' → n.kind? = some (.reference text) →
    n'.kind? = some (.reference text') →
    Reference.resolve job.documents text l.document = .error e →
    ∃ e', Reference.resolve job'.documents text' l'.document = .error e' ∧ E e e'
  note : ∀ {s s'} (events events' : List Event), M s s' → M (s.note events) (s'.note events')
  resolvedType? : ∀ {s s' l l'}, M s s' → Q l l' → s'.resolvedType? l' = s.resolvedType? l
  reentry : ∀ {s s' l l'} (recursive : Bool), M s s' → Q l l' →
    s'.reentry recursive l' = s.reentry recursive l
  cycle : ∀ {s s' l l'}, M s s' → Q l l' →
    E (.cyclicReference ((s.cycleThrough l).map job.origin))
      (.cyclicReference ((s'.cycleThrough l').map job'.origin))
  enter : ∀ {s s' l l'}, M s s' → Q l l' → M (s.enter l) (s'.enter l')
  leave : ∀ {s s' t t' l l'} (τ : TypeDesc), M s s' → Q l l' → M t t' →
    t.inFlight = (s.enter l).inFlight → t'.inFlight = (s'.enter l').inFlight →
    M (t.leave.remember l τ) (t'.leave.remember l' τ)
  shape : ∀ {l key l' key'} (typeName : String), D l key l' key' →
    E (.invalidShape (job.origin l) typeName) (.invalidShape (job'.origin l') typeName)
  nameOf? : ∀ {l key l' key' s s'}, D l key l' key' → M s s' →
    s'.registry.nameOf? l' = s.registry.nameOf? l
  isDefined : ∀ {l key l' key' s s'}, D l key l' key' → M s s' →
    s'.registry.isDefined l' = s.registry.isDefined l
  reopened : ∀ {l key l' key'}, D l key l' key' →
    E (.cyclicReference [job.origin l, job.origin l])
      (.cyclicReference [job'.origin l', job'.origin l'])
  opened : ∀ {l key l' key' n n' s s'}, D l key l' key' → job.nodeAt? l = some n → n.isStruct →
    job'.nodeAt? l' = some n' → M s s' → s.registry.nameOf? l = none →
    Agree M E Eq (openStruct job n l key s) (openStruct job' n' l' key' s')
  closed : ∀ {l key l' key' s s'} (name : String) (description : Option String)
    (fields : Dict String Field), D l key l' key' → M s s' →
    M (s.closed ⟨name, job.origin l, description, fields⟩)
      (s'.closed ⟨name, job'.origin l', description, fields⟩)

namespace Simulates

variable {job job' : Job} {D R : Location → String → Location → String → Prop}
  {Q : Location → Location → Prop} {M : Synthesis → Synthesis → Prop}
  {E : CompileError → CompileError → Prop} {k k' : Nat} {l l' : Location} {key key' : String}
  {n n' : Node} {s s' : Synthesis} (h : Simulates job job' D R Q M E)
  (hw : WalksAgree job job' R M E k k')

include h hw

theorem enter_succ {text text' : String} {target target' : Target}
    (hk : n.kind? = some (.reference text)) (hk' : n'.kind? = some (.reference text'))
    (ht : Reference.resolve job.documents text l.document = .ok target)
    (ht' : Reference.resolve job'.documents text' l'.document = .ok target')
    (hQ : Q target.location target'.location)
    (hR : R target.location (job.targetKey target.location) target'.location
      (job'.targetKey target'.location))
    (hc : s.resolvedType? target.location = none) (hc' : s'.resolvedType? target'.location = none)
    (he : s.reentry job.options.recursive target.location = .enter)
    (he' : s'.reentry job'.options.recursive target'.location = .enter) (hs : M s s') :
    Agree M E Eq (walk job (k + 1) n l key s) (walk job' (k' + 1) n' l' key' s') := by
  have hmarked : M (s.marked job text l target.location)
      (s'.marked job' text' l' target'.location) := h.note _ _ hs
  have hagree := hw _ _ _ _ _ _ _ _ hR (Reference.nodeAt?_of_resolve ht)
    (Reference.nodeAt?_of_resolve ht') (h.enter hmarked hQ)
  generalize hp : walk job k target.node target.location (job.targetKey target.location)
    ((s.marked job text l target.location).enter target.location) = p at hagree
  generalize hq : walk job' k' target'.node target'.location (job'.targetKey target'.location)
    ((s'.marked job' text' l' target'.location).enter target'.location) = q at hagree
  cases hagree with
  | ok ha ht₁ =>
    rw [walk_succ_iff.mpr (.entered hk ht hc he hp),
      walk_succ_iff.mpr (.entered hk' ht' hc' he' hq)]
    subst ha
    refine .ok rfl (h.leave _ hmarked hQ ht₁ ?_ ?_)
    · exact (walk_after hp).grown.inFlight
    · exact (walk_after hq).grown.inFlight
  | error hE =>
    rw [walk_succ_iff.mpr (.lost hk ht hc he hp), walk_succ_iff.mpr (.lost hk' ht' hc' he' hq)]
    exact .error hE
  | tooDeep =>
    rw [walk_succ_iff.mpr (.lost hk ht hc he hp)]
    exact .tooDeep

theorem reference_succ {text text' : String} (hD : D l key l' key') (hn : job.nodeAt? l = some n)
    (hn' : job'.nodeAt? l' = some n') (hk : n.kind? = some (.reference text))
    (hk' : n'.kind? = some (.reference text')) (hs : M s s') :
    Agree M E Eq (walk job (k + 1) n l key s) (walk job' (k' + 1) n' l' key' s') := by
  cases ht : Reference.resolve job.documents text l.document with
  | error e =>
    obtain ⟨e', ht', he⟩ := h.unresolved hD hn hn' hk hk' ht
    rw [walk_succ_iff.mpr (.unresolved hk ht), walk_succ_iff.mpr (.unresolved hk' ht')]
    exact .error he
  | ok target =>
    obtain ⟨target', ht', hQ, hR⟩ := h.target hD hn hn' hk hk' ht
    have hcached := h.resolvedType? hs hQ
    cases hc : s.resolvedType? target.location with
    | some τ =>
      rw [hc] at hcached
      rw [walk_succ_iff.mpr (.cached hk ht hc), walk_succ_iff.mpr (.cached hk' ht' hcached)]
      exact .ok rfl (h.note _ _ hs)
    | none =>
      rw [hc] at hcached
      have hentry := h.reentry job.options.recursive hs hQ
      nth_rewrite 1 [← h.recursive] at hentry
      cases he : s.reentry job.options.recursive target.location with
      | forward name =>
        rw [he] at hentry
        rw [walk_succ_iff.mpr (.forward hk ht hc he),
          walk_succ_iff.mpr (.forward hk' ht' hcached hentry)]
        exact .ok rfl (h.note _ _ hs)
      | cycle =>
        rw [he] at hentry
        rw [walk_succ_iff.mpr (.cycle hk ht hc he),
          walk_succ_iff.mpr (.cycle hk' ht' hcached hentry)]
        exact .error (h.cycle hs hQ)
      | enter =>
        rw [he] at hentry
        exact h.enter_succ hw hk hk' ht ht' hQ hR hc hcached he hentry hs

theorem fill_slots {name : String} (hD : D l key l' key') (hn : job.nodeAt? l = some n)
    (hn' : job'.nodeAt? l' = some n') (hst : n.isStruct) {s₀ s₀' : Synthesis} (hs₀ : M s₀ s₀')
    (hname : s₀.registry.nameOf? l = none) (hs : M s s') :
    Agree M E Eq (fill (walk job k) l (n.slots name) ∅ s)
      (fill (walk job' k') l' (n'.slots name) ∅ s') := by
  have hslots := forall₂_mem ((h.alike (h.corresponds hD) hn hn').slots name)
  refine fill_agree (fun _ _ _ _ he => he ▸ rfl) (hslots.imp ?_) rfl hs
  rintro a b ⟨ha, hb, heq⟩
  have hR := h.slot hD hn hst hs₀ hname ha
  have hfound := Job.nodeAt?_slot hn ha
  have hfound' := Job.nodeAt?_slot hn' hb
  rw [show b.segment = a.segment by rw [heq]] at hfound' ⊢
  rw [show b.key = a.key by rw [heq]]
  refine ⟨⟨heq, (h.alike hR hfound hfound').description⟩, ?_⟩
  intro s s' hs
  exact hw _ _ _ _ _ _ _ _ hR hfound hfound' hs

theorem struct_succ (hD : D l key l' key') (hn : job.nodeAt? l = some n)
    (hn' : job'.nodeAt? l' = some n') (hst : n.isStruct) (hst' : n'.isStruct) (hs : M s s') :
    Agree M E Eq (walk job (k + 1) n l key s) (walk job' (k' + 1) n' l' key' s') := by
  have hname' := h.nameOf? hD hs
  have hdefined := h.isDefined hD hs
  cases hname : s.registry.nameOf? l with
  | some name =>
    rw [hname] at hname'
    by_cases hr : job.options.recursive = false → s.registry.isDefined l = true
    · rw [walk_succ_iff.mpr (.known hst hname hr),
        walk_succ_iff.mpr (.known hst' hname' (by rwa [h.recursive, hdefined]))]
      exact .ok rfl hs
    · simp only [Classical.not_imp, Bool.not_eq_true] at hr
      rw [walk_succ_iff.mpr (.reopened hst hname hr.1 hr.2), walk_succ_iff.mpr
        (.reopened hst' hname' (h.recursive.trans hr.1) (hdefined.trans hr.2))]
      exact .error (h.reopened hD)
  | none =>
    rw [hname] at hname'
    have hdescription := (h.alike (h.corresponds hD) hn hn').description
    rw [walk, walk, step_of_isStruct hst, step_of_isStruct hst', struct_of_unnamed hname,
      struct_of_unnamed hname', hdescription]
    apply Agree.bind (h.opened hD hn hst hn' hs hname)
    rintro name _ t t' rfl ht
    apply Agree.bind (h.fill_slots hw hD hn hn' hst hs hname ht)
    rintro fields _ u u' rfl hu
    exact .ok rfl (h.closed name n.head.description fields hD hu)

theorem walk_succ (hD : D l key l' key') (hn : job.nodeAt? l = some n)
    (hn' : job'.nodeAt? l' = some n') (hs : M s s') :
    Agree M E Eq (walk job (k + 1) n l key s) (walk job' (k' + 1) n' l' key' s') := by
  have hkind := (h.alike (h.corresponds hD) hn hn').kind?
  generalize hk : n.kind? = kind at hkind
  generalize hk' : n'.kind? = kind' at hkind
  cases hkind with
  | shapeless =>
    rw [walk_succ_iff.mpr (.shape hk), walk_succ_iff.mpr (.shape hk'),
      (h.alike (h.corresponds hD) hn hn').typeName]
    exact .error (h.shape n.typeName hD)
  | reference => exact h.reference_succ hw hD hn hn' hk hk' hs
  | primitive | any | array | map =>
    rw [walk_succ_iff.mpr (.leaf (by simp [Node.leafType?, hk]; rfl)),
      walk_succ_iff.mpr (.leaf (by simp [Node.leafType?, hk']; rfl))]
    exact .ok rfl hs
  | items =>
    rw [walk_succ_iff.mpr (.items hk rfl), walk_succ_iff.mpr (.items hk' rfl)]
    exact (hw _ _ _ _ _ _ _ _ (h.items hD hn hk) (Job.nodeAt?_items hn hk)
      (Job.nodeAt?_items hn' hk') hs).map _
  | value =>
    rw [walk_succ_iff.mpr (.value hk rfl), walk_succ_iff.mpr (.value hk' rfl)]
    exact (hw _ _ _ _ _ _ _ _ (h.value hD hn hk) (Job.nodeAt?_value hn hk)
      (Job.nodeAt?_value hn' hk') hs).map _
  | struct | emptyObject =>
    exact h.struct_succ hw hD hn hn' (by simp [Node.isStruct, hk]) (by simp [Node.isStruct, hk']) hs

omit h hw in
theorem walksAgree (h : Simulates job job' R R Q M E) (hk : k ≤ k') :
    WalksAgree job job' R M E k k' := by
  induction k generalizing k' with
  | zero =>
    intro l key l' key' n n' s s' _ _ _ _
    exact .tooDeep
  | succ k ih =>
    intro l key l' key' n n' s s' hR hn hn' hs
    cases k' with
    | zero => omega
    | succ k' => exact h.walk_succ (ih (by omega)) hR hn hn' hs

end Simulates

section
variable {job job' : Job} {R : Location → String → Location → String → Prop}
  {M : Synthesis → Synthesis → Prop} {E : CompileError → CompileError → Prop} {s s' : Synthesis}

structure Paired (job job' : Job) (M : Synthesis → Synthesis → Prop) (s s' : Synthesis) :
    Prop where
  corresponds : M s s'
  sound : s.Sound job
  sound' : s'.Sound job'
  inFlight : s.inFlight = []
  inFlight' : s'.inFlight = []

variable (hw : ∀ k k', k ≤ k' → WalksAgree job job' R M E k k')
  (hR : ∀ i, R (.root i) (job.rootKey i) (.root i) (job'.rootKey i))

include hw hR

/-- The allowances of two jobs may differ, but neither is used up. -/
theorem synthesizeRoot_agree {i : Nat} (hi : i < job.documents.length)
    (hi' : i < job'.documents.length) (hs : Paired job job' M s s') :
    Agree (Paired job job' M) E Eq (synthesizeRoot job i s) (synthesizeRoot job' i s') := by
  obtain ⟨n, hn, hroot⟩ := exists_root hi
  obtain ⟨n', hn', hroot'⟩ := exists_root hi'
  have hdeep : (synthesize job' n' (.root i) (job'.rootKey i) s').1 ≠ .error .tooDeep :=
    synthesize_ne_tooDeep hn' hs.sound' hs.inFlight'
  -- The second walk is given as many steps as the first, which makes no difference to it.
  have hmore := walk_of_le (Nat.le_max_right job.allowance job'.allowance) hdeep
  have hagree := hw _ _ (Nat.le_max_left job.allowance job'.allowance) _ _ _ _ _ _ _ _ (hR i) hn hn'
    hs.corresponds
  rw [hmore] at hagree
  rw [hroot, hroot']
  refine hagree.mono ?_
  intro τ τ' t t' hp hq hτ ht
  refine ⟨hτ, ht, ?_, ?_, ?_, ?_⟩
  · exact (walk_faithful _ _ _ _ _ _ _ hp hn hs.sound).1
  · exact (walk_faithful _ _ _ _ _ _ _ hq hn' hs.sound').1
  · exact (walk_after hp).grown.inFlight.trans hs.inFlight
  · exact (walk_after hq).grown.inFlight.trans hs.inFlight'

theorem synthesizeRoots_agree (hlength : job'.documents.length = job.documents.length)
    (hs : Paired job job' M s s') :
    Agree (Paired job job' M) E Eq (synthesizeRoots job s) (synthesizeRoots job' s') := by
  have hall : ∀ is : List Nat, (∀ i ∈ is, i < job.documents.length) → ∀ s s',
      Paired job job' M s s' → Agree (Paired job job' M) E Eq
        ((is.forM fun i => do let _ ← synthesizeRoot job i : Synth Unit) s)
        ((is.forM fun i => do let _ ← synthesizeRoot job' i : Synth Unit) s') := by
    intro is hi
    induction is with
    | nil =>
      intro s s' hs
      exact .ok rfl hs
    | cons i rest ih =>
      intro s s' hs
      have hlt := hi i List.mem_cons_self
      apply Agree.bind (M := Paired job job' M) (A := Eq)
      · apply Agree.bind (synthesizeRoot_agree hw hR hlt (hlength ▸ hlt) hs)
        intro _ _ t t' _ ht
        exact .ok rfl ht
      · intro _ _ t t' _ ht
        exact ih (fun i hm => hi i (List.mem_cons_of_mem _ hm)) t t' ht
  unfold synthesizeRoots
  rw [hlength]
  exact hall _ (fun i => List.mem_range.mp) s s' hs

end

end Synthesis

open Synthesis

/-- Compilations end alike where the walks of the jobs agree: both with the structs of states that
correspond, or both with an error. -/
theorem compile_agree {job job' : Job} {R : Location → String → Location → String → Prop}
    {M : Synthesis → Synthesis → Prop} {E : CompileError → CompileError → Prop}
    (hw : ∀ k k', k ≤ k' → WalksAgree job job' R M E k k')
    (hR : ∀ i, R (.root i) (job.rootKey i) (.root i) (job'.rootKey i))
    (hlength : job'.documents.length = job.documents.length)
    (hids : repeatedId? [] job'.documents = repeatedId? [] job.documents)
    (hE : ∀ id, E (.duplicateDocument id) (.duplicateDocument id))
    (hstart : M (start job.options) (start job'.options)) :
    (∃ s s', M s s' ∧ (synthesizeRoots job (start job.options)).2 = s ∧
      (compile job.options job.documents).result = .ok s.registry.structs ∧
      (compile job'.options job'.documents).result = .ok s'.registry.structs) ∨
    ∃ e e', E e e' ∧ (compile job.options job.documents).result = .error e ∧
      (compile job'.options job'.documents).result = .error e' := by
  cases hid : repeatedId? [] job.documents with
  | some id =>
    rw [hid] at hids
    exact .inr ⟨_, _, hE id, by simp [compile, hid], by simp [compile, hids]⟩
  | none =>
    rw [hid] at hids
    have hagree := synthesizeRoots_agree hw hR hlength
      ⟨hstart, sound_start _, sound_start _, rfl, rfl⟩
    generalize hp : synthesizeRoots job (start job.options) = p at hagree
    generalize hq : synthesizeRoots job' (start job'.options) = q at hagree
    have hresult := compile_of_roots hid (synthesizeRoots_iff.mp hp)
    have hresult' := compile_of_roots hids (synthesizeRoots_iff.mp hq)
    cases hagree with
    | ok _ hs => exact .inl ⟨_, _, hs.corresponds, rfl, hresult, hresult'⟩
    | error he => exact .inr ⟨_, _, he, hresult, hresult'⟩
    | tooDeep =>
      obtain ⟨id, -, hdeep⟩ | hdeep := compile_error hresult
      · cases hdeep
      · exact False.elim hdeep

end SchemaStructs
