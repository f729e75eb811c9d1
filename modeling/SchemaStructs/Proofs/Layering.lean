import SchemaStructs.Proofs.Chain
import SchemaStructs.Proofs.Preservation

namespace SchemaStructs

open Relation (TransGen ReflTransGen)

namespace StructMap

variable {m : StructMap} {struct : Struct} {a b : String}

def Acyclic (m : StructMap) : Prop := ∀ a, ¬ TransGen m.Mentions a a

theorem Mentions.insert_cases (h : StructMap.Mentions (m.insert struct.name struct) a b) :
    a ≠ struct.name ∧ m.Mentions a b ∨
      a = struct.name ∧ ∃ f ∈ struct.fields.values, f.type.struct? = some b := by
  obtain ⟨struct', hs, f, hf, ht⟩ := h
  by_cases ha : a = struct.name
  · rw [ha, Dict.get?_insert_self] at hs
    cases hs
    exact .inr ⟨ha, f, hf, ht⟩
  · rw [Dict.get?_insert_of_ne _ ha] at hs
    exact .inl ⟨ha, struct', hs, f, hf, ht⟩

theorem mem_keys_insert : b ∈ (m.insert a struct).keys ↔ b = a ∨ b ∈ m.keys := by
  by_cases hb : b = a
  · subst hb
    simp [Dict.mem_keys_iff]
  · simp [Dict.mem_keys_iff, Dict.get?_insert_of_ne _ hb, hb]

theorem Acyclic.insert (h : m.Acyclic)
    (hnew : ∀ a b, StructMap.Mentions (m.insert struct.name struct) a b → b ≠ struct.name) :
    StructMap.Acyclic (m.insert struct.name struct) := by
  have hold : ∀ a b, TransGen (StructMap.Mentions (m.insert struct.name struct)) a b →
      a ≠ struct.name → TransGen m.Mentions a b := by
    intro a b hp ha
    induction hp using TransGen.head_induction_on with
    | single hm =>
      obtain ⟨-, hm⟩ | ⟨rfl, -⟩ := hm.insert_cases
      · exact .single hm
      · exact absurd rfl ha
    | head hm _ ih =>
      have hc := hnew _ _ hm
      obtain ⟨-, hm⟩ | ⟨rfl, -⟩ := hm.insert_cases
      · exact .head hm (ih hc)
      · exact absurd rfl ha
  intro a hp
  obtain ⟨c, -, hm⟩ := TransGen.tail'_iff.mp hp
  exact h a (hold a a hp (hnew c a hm))

end StructMap

theorem Registry.Grows.keys_subset {r r' : Registry} (h : r.Grows r') (hc : r.Consistent)
    {name : String} (hk : name ∈ r.structs.keys) : name ∈ r'.structs.keys := by
  obtain ⟨struct, hs⟩ := Dict.mem_keys_iff.mp hk
  refine Dict.mem_keys_iff.mpr ⟨struct, ?_⟩
  rw [h.structs name (hc.structs name hk)]
  exact hs

namespace Job

variable {job : Job} {l m : Location}

theorem Live.edges (h : job.Live l) (hp : ReflTransGen job.Edge l m) : job.Live m := by
  induction hp with
  | refl => exact h
  | tail _ he ih => exact .edge ih he

theorem edges_cases (h : TransGen job.Edge l m) :
    TransGen job.Link l m ∨
      ∃ a, job.IsStructAt a ∧ ReflTransGen job.Edge l a ∧ TransGen job.Edge a m := by
  induction h with
  | single he =>
    obtain hl | hp := he
    · exact .inl (.single hl)
    · exact .inr ⟨l, hp.isStructAt, .refl, .single (.inr hp)⟩
  | @tail a m h he ih =>
    obtain hlinks | ⟨b, hb, hto, hfrom⟩ := ih
    · obtain hl | hp := he
      · exact .inl (hlinks.tail hl)
      · exact .inr ⟨a, hp.isStructAt, h.to_reflTransGen, .single (.inr hp)⟩
    · exact .inr ⟨b, hb, hto, hfrom.tail he⟩

end Job

namespace Synthesis

variable {job : Job} {s s' : Synthesis} {here : Location} {node : Node} {key : String}
  {τ : TypeDesc}

/-- A cycle of live nodes shows in the structs: types end, so that one of the nodes is a struct. -/
theorem Settled.not_acyclic {l : Location} (h : s.Settled job) (hl : job.Live l)
    (hc : TransGen job.Edge l l) : ¬ s.registry.structs.Acyclic := by
  intro hacyclic
  obtain hlinks | ⟨a, ha, hto, hfrom⟩ := Job.edges_cases hc
  · obtain ⟨τ, hτ⟩ := h.exists_type hl
    exact hτ.grounded.not_cycle hlinks
  · obtain ⟨τ, hτ⟩ := h.exists_type (hl.edges hto)
    obtain ⟨name, hname, -⟩ := hτ.exists_name ha
    have hcycle : TransGen job.Edge a a := hfrom.trans_left hto
    exact hacyclic name (h.complete.mentions_of_cycle hname hcycle)

def Defined (s : Synthesis) (τ : TypeDesc) : Prop :=
  ∀ a, τ.struct? = some a → a ∈ s.registry.structs.keys

structure Layered (s : Synthesis) : Prop where
  cached : ∀ e ∈ s.resolved, s.Defined e.2
  mentioned : ∀ a b, s.registry.structs.Mentions a b → b ∈ s.registry.structs.keys
  acyclic : s.registry.structs.Acyclic

theorem layered_start (options : Options) : (start options).Layered := by
  have hno : ∀ a b, ¬ (start options).registry.structs.Mentions a b := by
    rintro a b ⟨struct, hs, -⟩
    cases hs
  refine ⟨nofun, fun a b hm => absurd hm (hno a b), ?_⟩
  intro a hp
  obtain ⟨c, hm, -⟩ := TransGen.head'_iff.mp hp
  exact hno a c hm

theorem Defined.grown (h : s.Defined τ) (hs : s.Sound job) (hg : s.Grown s') : s'.Defined τ :=
  fun a ha => hg.registry.keys_subset hs.consistent (h a ha)

theorem Layered.remember {l : Location} (h : s.Layered) (hτ : s.Defined τ) :
    (s.remember l τ).Layered := by
  refine ⟨?_, h.mentioned, h.acyclic⟩
  intro e he
  obtain rfl | he := List.mem_cons.mp he
  · exact hτ
  · exact h.cached e he

theorem Layered.opened {name : String} {registry : Registry} {events : List Event}
    (h : s.Layered) (ho : Opens job s node here key name registry events) :
    (s.opened registry events).Layered := by
  have hstructs : (s.opened registry events).registry.structs = s.registry.structs := by
    rw [ho.registry_opened]
    rfl
  refine ⟨?_, ?_, ?_⟩
  · intro e he a ha
    rw [hstructs]
    exact h.cached e he a ha
  · rw [hstructs]
    exact h.mentioned
  · rw [hstructs]
    exact h.acyclic

/-- A struct that is closed mentions structs of lower layers only, and none of them mentions it. -/
theorem Layered.closed {struct : Struct} (h : s.Layered)
    (hnew : struct.name ∉ s.registry.structs.keys)
    (hf : ∀ f ∈ struct.fields.values, s.Defined f.type) : (s.closed struct).Layered := by
  have hstructs : (s.closed struct).registry.structs =
      s.registry.structs.insert struct.name struct := rfl
  have hold : ∀ a b, StructMap.Mentions (s.registry.structs.insert struct.name struct) a b →
      b ∈ s.registry.structs.keys := by
    intro a b hm
    obtain ⟨-, hm⟩ | ⟨-, f, hmem, ht⟩ := hm.insert_cases
    · exact h.mentioned a b hm
    · exact hf f hmem b ht
  refine ⟨?_, ?_, ?_⟩
  · intro e he a ha
    rw [hstructs]
    exact StructMap.mem_keys_insert.mpr (.inr (h.cached e he a ha))
  · intro a b hm
    rw [hstructs] at hm ⊢
    exact StructMap.mem_keys_insert.mpr (.inr (hold a b hm))
  · rw [hstructs]
    apply h.acyclic.insert
    rintro a b hm rfl
    exact hnew (hold a _ hm)

theorem reentry_false_ne_forward {name : String} : s.reentry false here ≠ .forward name := by
  unfold reentry
  split
  next => exact nofun
  next =>
  split
  next => exact nofun
  next => split <;> exact nofun

theorem defined_of_isDefined {name : String} (hname : s.registry.nameOf? here = some name)
    (hd : s.registry.isDefined here = true) : s.Defined (.struct name) := by
  rintro a ⟨⟩
  rw [Registry.isDefined, hname] at hd
  exact Dict.mem_keys_iff.mpr (Option.isSome_iff_exists.mp hd)

section
variable {w : Node → Location → String → Synth TypeDesc}
  (ha : ∀ node l key s r s', w node l key s = (r, s') → s.After r s') (hw : Faithful job w)
  (hl : ∀ node l key s r s', w node l key s = (r, s') → job.nodeAt? l = some node →
    s.Sound job → s.Layered → s'.Layered ∧ ∀ τ, r = .ok τ → s'.Defined τ)

include ha hw hl

theorem Slots.layered {name : String} {slots : List Slot} {fields : Dict String Field}
    {r : Except CompileError (Dict String Field)} (h : Slots w here slots fields s r s')
    (hn : job.nodeAt? here = some node) (hm : ∀ slot ∈ slots, slot ∈ node.slots name)
    (hs : s.Sound job) (hlay : s.Layered) (hf : ∀ f ∈ fields.values, s.Defined f.type) :
    s'.Layered ∧ ∀ fields', r = .ok fields' → ∀ f ∈ fields'.values, s'.Defined f.type := by
  induction h with
  | nil =>
    refine ⟨hlay, ?_⟩
    rintro _ ⟨⟩
    exact hf
  | @cons slot rest fields τ s s₁ s' r hw₁ _ ih =>
    have hslot := hm slot List.mem_cons_self
    have hn₁ := Job.nodeAt?_slot hn hslot
    obtain ⟨hlay₁, hτ⟩ := hl _ _ _ _ _ _ hw₁ hn₁ hs hlay
    have hs₁ := (hw _ _ _ _ _ _ hw₁ hn₁ hs).1
    have hg : s.Grown s₁ := (ha _ _ _ _ _ _ hw₁).grown
    refine ih (fun slot hm' => hm slot (List.mem_cons_of_mem _ hm')) hs₁ hlay₁ ?_
    intro f hmem
    obtain ⟨f₀, hperm, hentry⟩ := slot.exists_add_perm fields τ
    obtain rfl | hmem := List.mem_cons.mp (hperm.mem_iff.mp hmem)
    · intro a hsome
      have ht : f.type = slot.wrap τ := congrArg Entry.type hentry
      rw [ht, Node.struct?_wrap hslot] at hsome
      exact hτ τ rfl a hsome
    · exact (hf f hmem).grown hs hg
  | fail hw₁ =>
    exact ⟨(hl _ _ _ _ _ _ hw₁ (Job.nodeAt?_slot hn (hm _ List.mem_cons_self)) hs hlay).1, nofun⟩

end

/-- Where structs may not be recursive, walks keep the layers, and return types of structs that
have their fields. -/
theorem walk_layered (hrec : job.options.recursive = false) {n : Nat}
    {r : Except CompileError TypeDesc} (h : walk job n node here key s = (r, s'))
    (hn : job.nodeAt? here = some node) (hs : s.Sound job) (hl : s.Layered) :
    s'.Layered ∧ ∀ τ, r = .ok τ → s'.Defined τ := by
  induction n generalizing node here key s r s' with
  | zero =>
    cases h
    exact ⟨hl, nofun⟩
  | succ n ih =>
    cases walk_succ_iff.mp h with
    | shape | unresolved | reopened | unnamed => exact ⟨hl, nofun⟩
    | cycle => exact ⟨⟨hl.cached, hl.mentioned, hl.acyclic⟩, nofun⟩
    | leaf ht =>
      refine ⟨hl, ?_⟩
      rintro _ ⟨⟩ a ha
      simp [Node.struct?_of_leafType? ht] at ha
    | items hk hw =>
      obtain ⟨hl', hτ⟩ := ih hw (Job.nodeAt?_items hn hk) hs hl
      refine ⟨hl', ?_⟩
      intro τ hr
      obtain ⟨τ', hr', rfl⟩ := Synth.map_eq_ok hr
      exact hτ τ' hr'
    | value hk hw =>
      obtain ⟨hl', hτ⟩ := ih hw (Job.nodeAt?_value hn hk) hs hl
      refine ⟨hl', ?_⟩
      intro τ hr
      obtain ⟨τ', hr', rfl⟩ := Synth.map_eq_ok hr
      exact hτ τ' hr'
    | cached hk ht hc =>
      refine ⟨⟨hl.cached, hl.mentioned, hl.acyclic⟩, ?_⟩
      rintro _ ⟨⟩
      obtain ⟨e, he, rfl⟩ := Option.map_eq_some_iff.mp hc
      exact hl.cached e (List.mem_of_find?_eq_some he)
    | forward hk ht hc he =>
      rw [hrec] at he
      exact absurd he reentry_false_ne_forward
    | @entered text target τ s₁ hk ht hc he hw =>
      obtain ⟨hl', hτ⟩ := ih hw (Reference.nodeAt?_of_resolve ht) ((hs.marked _ _).enter _)
        ⟨hl.cached, hl.mentioned, hl.acyclic⟩
      have hleft : s₁.leave.Layered := ⟨hl'.cached, hl'.mentioned, hl'.acyclic⟩
      refine ⟨hleft.remember (hτ _ rfl), ?_⟩
      rintro _ ⟨⟩
      exact hτ _ rfl
    | lost hk ht hc he hw =>
      obtain ⟨hl', -⟩ := ih hw (Reference.nodeAt?_of_resolve ht) ((hs.marked _ _).enter _)
        ⟨hl.cached, hl.mentioned, hl.acyclic⟩
      exact ⟨⟨hl'.cached, hl'.mentioned, hl'.acyclic⟩, nofun⟩
    | known hst hname hd =>
      refine ⟨hl, ?_⟩
      rintro _ ⟨⟩
      exact defined_of_isDefined hname (hd hrec)
    | @built name registry events fields s₁ hst hname hd hf =>
      have ho : Opens job s node here key name registry events := ⟨hn, hst, hname, hd⟩
      obtain ⟨hl', hfields⟩ := hf.layered (fun _ _ _ _ _ _ => walk_after) (walk_faithful n)
        (fun _ _ _ _ _ _ => ih) hn (fun _ => id) (ho.sound hs) (hl.opened ho) nofun
      have hnew : name ∉ s₁.registry.structs.keys :=
        Dict.get?_eq_none_iff.mp (ho.get?_eq_none hf hs)
      refine ⟨hl'.closed hnew (hfields fields rfl), ?_⟩
      rintro _ ⟨⟩ a ⟨⟩
      exact StructMap.mem_keys_insert.mpr (.inl rfl)
    | @unbuilt name registry events e s₁ hst hname hd hf =>
      have ho : Opens job s node here key name registry events := ⟨hn, hst, hname, hd⟩
      obtain ⟨hl', -⟩ := hf.layered (fun _ _ _ _ _ _ => walk_after) (walk_faithful n)
        (fun _ _ _ _ _ _ => ih) hn (fun _ => id) (ho.sound hs) (hl.opened ho) nofun
      exact ⟨hl', nofun⟩

theorem Roots.layered {is : List Nat} {r : Except CompileError Unit} (h : Roots job is s r s')
    (hrec : job.options.recursive = false) (hi : ∀ i ∈ is, i < job.documents.length)
    (hs : s.Sound job) (hl : s.Layered) : s'.Layered := by
  have hkeep : s'.Sound job ∧ s'.Layered := by
    refine h.keeps (I := fun s => s.Sound job ∧ s.Layered) hi ?_ ⟨hs, hl⟩
    rintro i node s₁ r s₂ - hn hw ⟨hs₁, hl₁⟩
    exact ⟨(walk_faithful _ _ _ _ _ _ _ hw hn hs₁).1, (walk_layered hrec hw hn hs₁ hl₁).1⟩
  exact hkeep.2

end Synthesis

end SchemaStructs
