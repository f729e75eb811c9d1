import SchemaStructs.Proofs.Justification

namespace SchemaStructs

namespace Synthesis

def under (policy : CollisionPolicy) (s : Synthesis) : Synthesis :=
  { s with registry := { s.registry with policy } }

/-- What one step ends with where names are disambiguated, and what it ends with where they may not
collide. Both are the same up to the first name that is changed, and there the second one fails. -/
inductive Follows {α : Type} (log : List Event) :
    Except CompileError α × Synthesis → Except CompileError α × Synthesis → Prop
  | same {r : Except CompileError α} {t : Synthesis} {new : List Event}
    (hlog : t.log = log ++ new) (hquiet : ∀ e ∈ new, e.level ≠ .warn) :
    Follows log (r, t.under .disambiguate) (r, t.under .fail)
  | collided {r : Except CompileError α} {t t' : Synthesis} {base first second name : String}
    {before after : List Event}
    (hlog : t.log = log ++ (before ++ .renamed base first second name :: after))
    (hquiet : ∀ e ∈ before, e.level ≠ .warn) :
    Follows log (r, t.under .disambiguate) (.error (.nameCollision base first second), t')

def Tolerant {α : Type} (x : Synth α) : Prop :=
  ∀ s : Synthesis, Follows s.log (x (s.under .disambiguate)) (x (s.under .fail))

section
variable {α β : Type} {s t : Synthesis} {log new : List Event} {x : Synth α} {f : α → Synth β}
  {p q : Except CompileError α × Synthesis}

theorem Follows.refl (r : Except CompileError α) (s : Synthesis) :
    Follows s.log (r, s.under .disambiguate) (r, s.under .fail) :=
  .same (List.append_nil s.log).symm nofun

theorem Follows.after_quiet (h : Follows t.log p q) (hlog : t.log = log ++ new)
    (hquiet : ∀ e ∈ new, e.level ≠ .warn) : Follows log p q := by
  cases h with
  | @same r t' new' hlog' hquiet' =>
    have hall : t'.log = log ++ (new ++ new') := by simp [hlog', hlog]
    refine .same hall ?_
    intro e he
    exact (List.mem_append.mp he).elim (hquiet e) (hquiet' e)
  | @collided r t' _ base first second name before after hlog' hquiet' =>
    have hall : t'.log = log ++ ((new ++ before) ++ .renamed base first second name :: after) := by
      simp [hlog', hlog]
    refine .collided hall ?_
    intro e he
    exact (List.mem_append.mp he).elim (hquiet e) (hquiet' e)

theorem Follows.exists_lenient (h : Follows log p q) :
    ∃ r t new, p = (r, under .disambiguate t) ∧ t.log = log ++ new := by
  cases h with
  | same hlog => exact ⟨_, _, _, rfl, hlog⟩
  | collided hlog => exact ⟨_, _, _, rfl, hlog⟩

/-- Whatever the rest does where names are disambiguated, it reports after the first change. -/
theorem Follows.bind (h : Follows log (x (s.under .disambiguate)) (x (s.under .fail)))
    (hf : ∀ a, Tolerant (f a)) :
    Follows log ((x >>= f) (s.under .disambiguate)) ((x >>= f) (s.under .fail)) := by
  generalize hp : x (s.under .disambiguate) = p at h
  generalize hq : x (s.under .fail) = q at h
  cases h with
  | @same r t new hlog hquiet =>
    cases r with
    | error e =>
      rw [Synth.bind_error hp, Synth.bind_error hq]
      exact .same hlog hquiet
    | ok a =>
      rw [Synth.bind_ok hp, Synth.bind_ok hq]
      exact (hf a t).after_quiet hlog hquiet
  | @collided r t t' base first second name before after hlog hquiet =>
    rw [Synth.bind_error hq]
    cases r with
    | error e =>
      rw [Synth.bind_error hp]
      exact .collided hlog hquiet
    | ok a =>
      rw [Synth.bind_ok hp]
      obtain ⟨r, u, more, hu, hmore⟩ := (hf a t).exists_lenient
      rw [hu]
      have hall : u.log =
          log ++ (before ++ .renamed base first second name :: (after ++ more)) := by
        simp [hmore, hlog]
      exact .collided hall hquiet

end

section
variable {α β : Type} {x : Synth α} {f : α → Synth β}

theorem tolerant_const (r : Except CompileError α) :
    Tolerant (fun s => (r, s) : Synth α) := fun s => Follows.refl r s

theorem Tolerant.bind (h : Tolerant x) (hf : ∀ a, Tolerant (f a)) : Tolerant (x >>= f) :=
  fun s => (h s).bind hf

theorem tolerant_get_bind {f : Synthesis → Synth β}
    (hsame : ∀ s : Synthesis, f (s.under .disambiguate) = f (s.under .fail))
    (hf : ∀ s, Tolerant (f s)) : Tolerant (get >>= f) := by
  intro s
  rw [Synth.get_bind, Synth.get_bind, hsame]
  exact hf _ s

theorem tolerant_modify {g : Synthesis → Synthesis}
    (hunder : ∀ p s, g (under p s) = (g s).under p)
    (hlog : ∀ s, ∃ new, (g s).log = s.log ++ new ∧ ∀ e ∈ new, e.level ≠ .warn) :
    Tolerant (modify g : Synth Unit) := by
  intro s
  obtain ⟨new, hnew, hquiet⟩ := hlog s
  have hrun : ∀ p, (modify g : Synth Unit) (s.under p) = (.ok (), (g s).under p) := by
    intro p
    rw [← hunder]
    rfl
  rw [hrun, hrun]
  exact .same hnew hquiet

/-- Giving a name is the one step that asks for the policy. -/
theorem tolerant_openStruct (job : Job) (node : Node) (here : Location) (key : String) :
    Tolerant (openStruct job node here key) := by
  intro s
  have hnames : ∀ p, (s.under p).registry.nameOf? here = s.registry.nameOf? here := fun _ => rfl
  have howners : ∀ p name, (s.under p).registry.owner? name = s.registry.owner? name :=
    fun _ _ => rfl
  cases hname : s.registry.nameOf? here with
  | some name =>
    have hrun : ∀ p, openStruct job node here key (s.under p) =
        (.ok name, (s.opened s.registry []).under p) :=
      fun p => openStruct_of_ok (Registry.declare_of_nameOf? ((hnames p).trans hname))
    rw [hrun, hrun]
    exact .same rfl nofun
  | none =>
    cases howner : s.registry.owner? (Naming.typeName node.head.title key) with
    | none =>
      have hrun : ∀ p, openStruct job node here key (s.under p) =
          (.ok (Naming.typeName node.head.title key),
            (s.opened (s.registry.record
              ⟨here, Naming.typeName node.head.title key, job.origin here⟩) []).under p) :=
        fun p => openStruct_of_ok
          (Registry.declare_of_free ((hnames p).trans hname) ((howners p _).trans howner))
      rw [hrun, hrun]
      exact .same rfl nofun
    | some owner =>
      have hstrict : openStruct job node here key (s.under .fail) = _ := openStruct_of_error
        (Registry.declare_of_owner_fail ((hnames _).trans hname) ((howners _ _).trans howner) rfl)
      obtain ⟨name, hdeclare⟩ := Registry.declare_of_owner (job.origin here)
        (job.stem? here.document) ((hnames .disambiguate).trans hname)
        ((howners _ _).trans howner) rfl
      have hlog : (s.opened (s.registry.record ⟨here, name, job.origin here⟩) [.renamed
          (Naming.typeName node.head.title key) owner.origin (job.origin here) name]).log =
          s.log ++ ([] ++ .renamed (Naming.typeName node.head.title key) owner.origin
            (job.origin here) name :: []) := rfl
      rw [openStruct_of_ok hdeclare, hstrict]
      exact .collided hlog nofun

section
variable (job : Job) {w : Node → Location → String → Synth TypeDesc}
  (hw : ∀ node here key, Tolerant (w node here key))

theorem tolerant_resolve (text : String) (document : Nat) :
    Tolerant (resolve job text document) := by
  apply Tolerant.bind (tolerant_const _)
  intro target
  apply Tolerant.bind
  · apply tolerant_modify
    · intro p s
      rfl
    · intro s
      exact ⟨_, rfl, by simp [Event.level]⟩
  · intro _
    exact tolerant_const _

theorem tolerant_closeStruct (struct : Struct) : Tolerant (closeStruct struct) := by
  apply tolerant_modify
  · intro p s
    rfl
  · intro s
    exact ⟨_, rfl, by simp [Registry.define, Event.level]⟩

theorem tolerant_within (target : Location) {x : Synth TypeDesc} (h : Tolerant x) :
    Tolerant (within target x) := by
  intro s
  have hx : Follows s.log (x ((s.under .disambiguate).enter target))
    (x ((s.under .fail).enter target)) := h (s.enter target)
  generalize hp : x ((s.under .disambiguate).enter target) = p at hx
  generalize hq : x ((s.under .fail).enter target) = q at hx
  cases hx with
  | @same r t new hlog hquiet =>
    rw [within_apply hp, within_apply hq]
    exact Follows.same (t := t.leave) hlog hquiet
  | @collided r t t' base first second name before after hlog hquiet =>
    rw [within_apply hp, within_apply hq]
    exact Follows.collided (t := t.leave) hlog hquiet

include hw

theorem tolerant_reference (text : String) (here : Location) :
    Tolerant (reference job w text here) := by
  apply Tolerant.bind (tolerant_resolve job text here.document)
  intro target
  apply tolerant_get_bind
  · intro s
    rfl
  · intro s
    split
    · exact tolerant_const _
    · split
      · exact tolerant_const _
      · exact tolerant_const _
      · apply Tolerant.bind (tolerant_within _ (hw _ _ _))
        intro type
        apply Tolerant.bind
        · apply tolerant_modify
          · intro p s
            rfl
          · intro s
            exact ⟨[], by simp [remember], by simp⟩
        · intro _
          exact tolerant_const _

theorem tolerant_fill (here : Location) (slots : List Slot) (fields : Dict String Field) :
    Tolerant (fill w here slots fields) := by
  induction slots generalizing fields with
  | nil => exact tolerant_const _
  | cons slot rest ih => exact Tolerant.bind (hw _ _ _) fun _ => ih _

theorem tolerant_struct (node : Node) (here : Location) (key : String) (extra : Option Node) :
    Tolerant (struct job w node here key extra) := by
  apply tolerant_get_bind
  · intro s
    rfl
  · intro s
    split
    · split
      · exact tolerant_const _
      · exact tolerant_const _
    · apply Tolerant.bind (tolerant_openStruct job node here key)
      intro name
      rw [propertyFields_eq_fill]
      apply Tolerant.bind (tolerant_fill hw _ _ _)
      intro fields
      rw [extraField_eq_fill]
      apply Tolerant.bind (tolerant_fill hw _ _ _)
      intro fields
      apply Tolerant.bind (tolerant_closeStruct _)
      intro _
      exact tolerant_const _

theorem tolerant_step (node : Node) (here : Location) (key : String) :
    Tolerant (step job w node here key) := by
  unfold step
  split
  · exact tolerant_const _
  · exact tolerant_reference job hw _ _
  · exact tolerant_const _
  · exact tolerant_const _
  · exact tolerant_const _
  · exact Tolerant.bind (hw _ _ _) fun _ => tolerant_const _
  · exact tolerant_const _
  · exact Tolerant.bind (hw _ _ _) fun _ => tolerant_const _
  · exact tolerant_struct job hw _ _ _ _
  · exact tolerant_struct job hw _ _ _ _

end

theorem tolerant_walk (job : Job) (n : Nat) (node : Node) (here : Location) (key : String) :
    Tolerant (walk job n node here key) := by
  induction n generalizing node here key with
  | zero => exact tolerant_const _
  | succ n ih => exact tolerant_step job ih node here key

theorem tolerant_synthesizeRoots (job : Job) : Tolerant (synthesizeRoots job) := by
  have hall : ∀ is : List Nat, Tolerant (is.forM fun i => do
      let _ ← synthesizeRoot job i : Synth Unit) := by
    intro is
    induction is with
    | nil => exact tolerant_const _
    | cons i rest ih =>
      apply Tolerant.bind
      · apply Tolerant.bind
        · unfold synthesizeRoot
          split
          · exact tolerant_const _
          · exact tolerant_walk _ _ _ _ _
        · intro _
          exact tolerant_const _
      · intro _
        exact ih
  exact hall _

end

theorem walk_policy (documents : List Document) (options : Options) (policy : CollisionPolicy)
    (n : Nat) :
    walk ⟨documents, { options with policy }⟩ n = walk ⟨documents, options⟩ n := by
  induction n with
  | zero => rfl
  | succ n ih =>
    funext node here key
    rw [walk, ih]
    rfl

theorem synthesizeRoots_policy (documents : List Document) (options : Options)
    (policy : CollisionPolicy) :
    synthesizeRoots ⟨documents, { options with policy }⟩ =
      synthesizeRoots ⟨documents, options⟩ := by
  have hroot : synthesizeRoot ⟨documents, { options with policy }⟩ =
      synthesizeRoot ⟨documents, options⟩ := by
    funext i
    unfold synthesizeRoot synthesize
    rw [walk_policy]
    rfl
  unfold synthesizeRoots
  rw [hroot]

/-- The roots are walked alike under both policies, up to the first name that is changed. -/
theorem follows_roots (documents : List Document) (options : Options) :
    let roots (policy : CollisionPolicy) :=
      synthesizeRoots ⟨documents, { options with policy }⟩ (start { options with policy })
    Follows [] (roots .disambiguate) (roots .fail) := by
  intro roots
  have h := tolerant_synthesizeRoots ⟨documents, options⟩ (start options)
  have hroots : ∀ policy, roots policy =
      synthesizeRoots ⟨documents, options⟩ ((start options).under policy) := by
    intro policy
    exact congrFun (synthesizeRoots_policy documents options policy) _
  rw [hroots, hroots]
  exact h

end Synthesis

open Synthesis

section
variable {options : Options} {documents : List Document}

theorem exists_log_of_run {r : Except CompileError Unit} {s : Synthesis}
    (hid : repeatedId? [] documents = none)
    (hrun : synthesizeRoots ⟨documents, options⟩ (start options) = (r, s)) :
    ∃ last, (compile options documents).log = s.log ++ last ∧ ∀ e ∈ last, e.level ≠ .warn := by
  simp only [compile, hid, hrun]
  cases r with
  | error e => exact ⟨[], by simp, by simp⟩
  | ok u => exact ⟨_, rfl, by simp [Event.level]⟩

theorem compile_ne_nameCollision {base first second : String}
    (hp : options.policy = .disambiguate) :
    (compile options documents).result ≠ .error (.nameCollision base first second) := by
  intro h
  obtain ⟨id, -, hid⟩ | ⟨hfail, -⟩ := @compile_error ⟨documents, options⟩ _ h
  · cases hid
  · cases hp.symm.trans hfail

end

/-- The policies differ only by collisions. What compiles where names may not collide compiles to
the same structs where they are disambiguated, and no name is changed; the other way round, what
compiles without a change compiles where names may not collide. If a collision is the error of the
one, it is the first change that the other reports. -/
theorem compile_policies_agree (documents : List Document) (recursive : Bool) (rootName : String) :
    let strict := compile { policy := .fail, recursive, rootName } documents
    let lenient := compile { policy := .disambiguate, recursive, rootName } documents
    (∀ m, strict.result = .ok m ↔
      lenient.result = .ok m ∧ ∀ e ∈ lenient.log, e.level ≠ .warn) ∧
    ∀ base first second, strict.result = .error (.nameCollision base first second) →
      ∃ before name after, lenient.log = before ++ .renamed base first second name :: after ∧
        ∀ e ∈ before, e.level ≠ .warn := by
  intro strict lenient
  cases hid : repeatedId? [] documents with
  | some id => simp [strict, lenient, compile, hid]
  | none =>
    have h := follows_roots documents { recursive, rootName }
    dsimp only at h
    generalize hlenient : synthesizeRoots _ (start { policy := .disambiguate, recursive, rootName })
      = p at h
    generalize hstrict : synthesizeRoots _ (start { policy := .fail, recursive, rootName }) = q at h
    have hresult : lenient.result = _ := compile_of_roots hid (synthesizeRoots_iff.mp hlenient)
    have hresult' : strict.result = _ := compile_of_roots hid (synthesizeRoots_iff.mp hstrict)
    obtain ⟨last, hlast, hend⟩ : ∃ last, lenient.log = _ ++ last ∧ _ :=
      exists_log_of_run hid hlenient
    cases h with
    | @same r t new hlog hquiet =>
      have hsame : strict.result = lenient.result := hresult'.trans hresult.symm
      have hnew : lenient.log = new ++ last := hlast.trans (congrArg (· ++ last) hlog)
      have hall : ∀ e ∈ lenient.log, e.level ≠ .warn := by
        rw [hnew]
        intro e he
        exact (List.mem_append.mp he).elim (hquiet e) (hend e)
      constructor
      · intro m
        rw [hsame]
        exact ⟨fun hm => ⟨hm, hall⟩, And.left⟩
      · intro base first second he
        exact absurd (hsame.symm.trans he) (compile_ne_nameCollision rfl)
    | @collided r t t' base first second name before after hlog hquiet =>
      have hnew : lenient.log = before ++ .renamed base first second name :: (after ++ last) := by
        rw [← List.cons_append, ← List.append_assoc]
        exact hlast.trans (congrArg (· ++ last) hlog)
      constructor
      · intro m
        constructor
        · intro hm
          cases hresult'.symm.trans hm
        · rintro ⟨-, hall⟩
          exact absurd rfl (hall (.renamed base first second name) (by simp [hnew]))
      · intro base' first' second' he
        cases hresult'.symm.trans he
        exact ⟨before, name, after ++ last, hnew, hquiet⟩

def homonyms : Document where
  id := "homonyms"
  root := Written.schema
    { Sample.named "object" with
      properties :=
        [("left", { Sample.named "object" with title := some "Side" }),
          ("right", { Sample.named "object" with title := some "Side" })] }

theorem homonyms_collide :
    (compile { policy := .fail } [homonyms]).result =
      .error (.nameCollision "Side" "homonyms#/properties/left" "homonyms#/properties/right") ∧
    ∃ before name after, (compile {} [homonyms]).log = before ++ .renamed "Side"
      "homonyms#/properties/left" "homonyms#/properties/right" name :: after ∧
      ∀ e ∈ before, e.level ≠ .warn := by
  have h : (compile { policy := .fail } [homonyms]).result =
      .error (.nameCollision "Side" "homonyms#/properties/left" "homonyms#/properties/right") := by
    decide +kernel
  exact ⟨h, (compile_policies_agree [homonyms] true "Root").2 _ _ _ h⟩

end SchemaStructs
