import SchemaStructs.Proofs.Justification
import SchemaStructs.Proofs.Layering
import SchemaStructs.Proofs.Renumbering

namespace SchemaStructs

open Relation (TransGen ReflTransGen)

namespace Job

def free (job : Job) : Job := { job with options := { job.options with recursive := true } }

theorem renumbers_free (job : Job) : Renumbers id job job.free := by
  refine ⟨fun _ => rfl, ?_, rfl⟩
  intro text i
  have hdocuments : job.free.documents = job.documents := rfl
  rw [hdocuments, id]
  cases Reference.resolve job.documents text i with
  | error e => rfl
  | ok target => rfl

end Job

namespace Synthesis

variable {job : Job} {s s' : Synthesis} {l here target : Location} {node : Node} {key : String}

def Open (s : Synthesis) (l : Location) : Prop :=
  ∃ name, s.registry.nameOf? l = some name ∧ s.registry.structs.get? name = none

def Standing (job : Job) (s : Synthesis) : Prop :=
  ∀ e ∈ s.inFlight, ¬ job.IsStructAt e.1 ∨ s.Open e.1

def StandingBut (job : Job) (here : Location) (s : Synthesis) : Prop :=
  ∀ e ∈ s.inFlight, e.1 = here ∨ ¬ job.IsStructAt e.1 ∨ s.Open e.1

theorem Open.grows (h : s.Open l) (hg : s.registry.Grows s'.registry) : s'.Open l := by
  obtain ⟨name, hname, hnone⟩ := h
  refine ⟨name, hg.nameOf? hname, ?_⟩
  rw [hg.structs name (Registry.name_mem_of_nameOf? hname)]
  exact hnone

theorem Standing.but (h : s.Standing job) : s.StandingBut job l := fun e he => .inr (h e he)

theorem Standing.grown (h : s.Standing job) (hg : s.Grown s') : s'.Standing job := by
  intro e he
  rw [hg.inFlight] at he
  exact (h e he).imp_right fun ho => ho.grows hg.registry

theorem StandingBut.link (h : s.StandingBut job here) (hl : job.Link here l) : s.Standing job := by
  intro e he
  obtain rfl | hst := h e he
  · exact .inl hl.not_isStructAt
  · exact hst

theorem Standing.enter (h : s.Standing job) : (s.enter target).StandingBut job target := by
  intro e he
  obtain he | he := List.mem_append.mp he
  · exact .inr (h e he)
  · obtain rfl := List.mem_singleton.mp he
    exact .inl rfl

theorem StandingBut.opened {name : String} {registry : Registry} {events : List Event}
    (h : s.StandingBut job here) (hs : s.Sound job)
    (ho : Opens job s node here key name registry events) :
    (s.opened registry events).Standing job := by
  have hg : s.Grown (s.opened registry events) := grown_opened ho.unnamed ho.declared
  intro e he
  obtain hh | hst | hopen := h e he
  · refine .inr ⟨name, ?_, ?_⟩
    · rw [ho.registry_opened, Registry.nameOf?_record, hh, ho.unnamed]
      simp
    · exact ho.get?_opened hs
  · exact .inl hst
  · exact .inr (hopen.grows hg.registry)

/-- The result is none of the errors that come from cycles, or from the allowance. -/
def Lasting {α : Type} (r : Except CompileError α) : Prop :=
  ∀ e, r = .error e → e ≠ .tooDeep ∧ ∀ chain, e ≠ .cyclicReference chain

theorem lasting_ok {α : Type} {a : α} : Lasting (.ok a) := nofun

theorem Lasting.of_map {α β : Type} {r : Except CompileError α} {f : α → β}
    (h : Lasting (r.map f)) : Lasting r := by
  rintro e rfl
  exact h e rfl

/-- Where recursion is forbidden, a struct that is being walked cannot be walked again. -/
theorem walk_open {n : Nat} {r : Except CompileError TypeDesc}
    (hrec : job.options.recursive = false) (h : walk job n node here key s = (r, s'))
    (hst : node.isStruct) (ho : s.Open here) : ¬ Lasting r := by
  obtain ⟨name, hname, hnone⟩ := ho
  have hundefined : s.registry.isDefined here = false := by
    simp [Registry.isDefined, hname, Dict.contains, hnone]
  cases n with
  | zero =>
    cases h
    intro hr
    exact (hr _ rfl).1 rfl
  | succ n =>
    have hstep : walk job (n + 1) node here key s = _ :=
      walk_succ_iff.mpr (.reopened hst hname hrec hundefined)
    cases h.symm.trans hstep
    intro hr
    exact (hr _ rfl).2 _ rfl

theorem reentry_true (h : s.reentry false target = .enter) :
    s.reentry true target = .enter ∨
      ∃ e ∈ s.inFlight, e.1 = target ∧ ∃ name, s.registry.nameOf? target = some name := by
  unfold reentry at h ⊢
  split at h
  next => exact .inl rfl
  next e opened hf =>
  split at h
  next name hname =>
    refine .inr ⟨_, List.mem_of_find?_eq_some hf, ?_, name, hname⟩
    simpa using List.find?_some hf
  next => exact .inl h

theorem reentry_true_of_walk {n : Nat} {text : String} {t : Target}
    {r : Except CompileError TypeDesc} (hrec : job.options.recursive = false) (hs : s.Sound job)
    (hst : s.Standing job) (hn : job.nodeAt? t.location = some t.node)
    (he : s.reentry job.options.recursive t.location = .enter)
    (hw : walk job n t.node t.location (job.targetKey t.location)
      ((s.marked job text here t.location).enter t.location) = (r, s')) (hr : Lasting r) :
    s.reentry true t.location = .enter := by
  rw [hrec] at he
  obtain he | ⟨e, hmem, heq, name, hname⟩ := reentry_true he
  · exact he
  · obtain ⟨d, hd, hloc, -⟩ := Registry.exists_of_nameOf? hname
    have hstruct : job.IsStructAt t.location := hloc ▸ hs.declared d hd
    have hopen : s.Open t.location := heq ▸ (hst e hmem).resolve_left (not_not.mpr (heq ▸ hstruct))
    obtain ⟨n', hn', hs'⟩ := hstruct
    obtain rfl := Option.some.inj (hn'.symm.trans hn)
    exact absurd hr (walk_open hrec hw hs' hopen)

section
variable {n : Nat} (hw : ∀ node l key s r s', walk job n node l key s = (r, s') →
  job.nodeAt? l = some node → s.Sound job → s.StandingBut job l → Lasting r →
  walk job.free n node l key s = (r, s'))

include hw

theorem Slots.free {slots : List Slot} {fields : Dict String Field}
    {r : Except CompileError (Dict String Field)} (h : Slots (walk job n) here slots fields s r s')
    (hn : ∀ slot ∈ slots, job.nodeAt? (here.join slot.segment) = some slot.node)
    (hs : s.Sound job) (hst : s.Standing job) (hr : Lasting r) :
    Slots (walk job.free n) here slots fields s r s' := by
  induction h with
  | nil => exact .nil
  | @cons slot rest fields τ s s₁ s' r hw₁ _ ih =>
    have hn₁ := hn _ List.mem_cons_self
    refine .cons (hw _ _ _ _ _ _ hw₁ hn₁ hs hst.but lasting_ok) ?_
    apply ih (fun slot hm => hn slot (List.mem_cons_of_mem _ hm))
    · exact (walk_faithful n _ _ _ _ _ _ hw₁ hn₁ hs).1
    · exact hst.grown (walk_after hw₁).grown
    · exact hr
  | fail hw₁ =>
    refine .fail (hw _ _ _ _ _ _ hw₁ (hn _ List.mem_cons_self) hs hst.but ?_)
    rintro e ⟨⟩
    exact hr _ rfl

theorem Step.free (hrec : job.options.recursive = false) {r : Except CompileError TypeDesc}
    (h : Step job (walk job n) node here key s r s') (hn : job.nodeAt? here = some node)
    (hs : s.Sound job) (hst : s.StandingBut job here) (hr : Lasting r) :
    Step job.free (walk job.free n) node here key s r s' := by
  cases h with
  | shape hk => exact .shape hk
  | leaf ht => exact .leaf ht
  | items hk hw₁ =>
    have hst' := hst.link (.items hn hk)
    exact .items hk (hw _ _ _ _ _ _ hw₁ (Job.nodeAt?_items hn hk) hs hst'.but hr.of_map)
  | value hk hw₁ =>
    have hst' := hst.link (.value hn hk)
    exact .value hk (hw _ _ _ _ _ _ hw₁ (Job.nodeAt?_value hn hk) hs hst'.but hr.of_map)
  | unresolved hk ht => exact .unresolved hk ht
  | cached hk ht hc => exact .cached hk ht hc
  | forward hk ht hc he =>
    rw [hrec] at he
    exact absurd he reentry_false_ne_forward
  | cycle => exact absurd rfl ((hr _ rfl).2 _)
  | entered hk ht hc he hw₁ =>
    -- Had the target been entered as an open struct, its walk would have ended in a cycle.
    have hst' := hst.link (.reference hn hk ht)
    have hn' := Reference.nodeAt?_of_resolve ht
    have he' := reentry_true_of_walk hrec hs hst' hn' he hw₁ hr
    have hw' := hw _ _ _ _ _ _ hw₁ hn' ((hs.marked _ _).enter _) (Standing.enter hst') hr
    exact .entered hk ht hc he' hw'
  | lost hk ht hc he hw₁ =>
    have hst' := hst.link (.reference hn hk ht)
    have hn' := Reference.nodeAt?_of_resolve ht
    have he' := reentry_true_of_walk hrec hs hst' hn' he hw₁ hr
    have hw' := hw _ _ _ _ _ _ hw₁ hn' ((hs.marked _ _).enter _) (Standing.enter hst') hr
    exact .lost hk ht hc he' hw'
  | known hst' hname _ => exact .known hst' hname nofun
  | reopened => exact absurd rfl ((hr _ rfl).2 _)
  | unnamed hst' hname hd => exact .unnamed hst' hname hd
  | built hst' hname hd hf =>
    have ho : Opens job s node here key _ _ _ := ⟨hn, hst', hname, hd⟩
    have hf' := hf.free hw (fun _ => Job.nodeAt?_slot hn) (ho.sound hs) (hst.opened hs ho)
      lasting_ok
    exact .built hst' hname hd hf'
  | unbuilt hst' hname hd hf =>
    have ho : Opens job s node here key _ _ _ := ⟨hn, hst', hname, hd⟩
    refine .unbuilt hst' hname hd (hf.free hw (fun _ => Job.nodeAt?_slot hn)
      (ho.sound hs) (hst.opened hs ho) ?_)
    rintro e ⟨⟩
    exact hr _ rfl

end

/-- A walk that meets no cycle does not depend on whether structs may be recursive. -/
theorem walk_free (hrec : job.options.recursive = false) {n : Nat}
    {r : Except CompileError TypeDesc} (h : walk job n node here key s = (r, s'))
    (hn : job.nodeAt? here = some node) (hs : s.Sound job) (hst : s.StandingBut job here)
    (hr : Lasting r) : walk job.free n node here key s = (r, s') := by
  induction n generalizing node here key s r s' with
  | zero =>
    cases h
    exact absurd rfl (hr _ rfl).1
  | succ n ih =>
    have hstep := (walk_succ_iff.mp h).free (fun _ _ _ _ _ _ => ih) hrec hn hs hst hr
    exact walk_succ_iff.mpr hstep

theorem synthesizeRoot_free (hrec : job.options.recursive = false) {i : Nat}
    {r : Except CompileError TypeDesc} (h : synthesizeRoot job i s = (r, s'))
    (hi : i < job.documents.length) (hs : s.Sound job) (hflight : s.inFlight = [])
    (hr : Lasting r) : synthesizeRoot job.free i s = (r, s') := by
  have hi' : i < job.free.documents.length := hi
  obtain ⟨node, hn, hroot⟩ := exists_root hi
  obtain ⟨node', hn', hroot'⟩ := exists_root hi'
  obtain rfl : node = node' := Option.some.inj (hn.symm.trans hn')
  rw [hroot] at h
  rw [hroot']
  refine walk_free hrec h hn hs ?_ hr
  intro e he
  simp [hflight] at he

theorem Roots.free {is : List Nat} {r : Except CompileError Unit} (h : Roots job is s r s')
    (hrec : job.options.recursive = false) (hi : ∀ i ∈ is, i < job.documents.length)
    (hs : s.Sound job) (hflight : s.inFlight = []) (hr : Lasting r) :
    Roots job.free is s r s' := by
  induction h with
  | nil => exact .nil
  | cons hw _ ih =>
    have hlt := hi _ List.mem_cons_self
    refine .cons (synthesizeRoot_free hrec hw hlt hs hflight lasting_ok) ?_
    obtain ⟨node, hn, hroot⟩ := exists_root hlt
    rw [hroot] at hw
    apply ih (fun i hm => hi i (List.mem_cons_of_mem _ hm))
    · exact (walk_faithful _ _ _ _ _ _ _ hw hn hs).1
    · exact (walk_after hw).grown.inFlight.trans hflight
    · exact hr
  | fail hw =>
    refine .fail (synthesizeRoot_free hrec hw (hi _ List.mem_cons_self) hs hflight ?_)
    rintro e ⟨⟩
    exact hr _ rfl

end Synthesis

open Synthesis

variable {job : Job} {m : StructMap}

theorem compile_free (hrec : job.options.recursive = false)
    (hr : Lasting (compile job.options job.documents).result) :
    (compile job.free.options job.documents).result =
      (compile job.options job.documents).result := by
  cases hid : repeatedId? [] job.documents with
  | some id => rw [compile, compile, hid]
  | none =>
    cases hrun : synthesizeRoots job (start job.options) with
    | mk r s =>
      have hroots := synthesizeRoots_iff.mp hrun
      rw [compile_of_roots hid hroots] at hr ⊢
      have hfree : Roots job.free (List.range job.documents.length) (start job.options) r s :=
        hroots.free hrec (fun i => List.mem_range.mp) (sound_start _) rfl hr.of_map
      exact compile_of_roots hid hfree

theorem compile_ne_tooDeep : (compile job.options job.documents).result ≠ .error .tooDeep := by
  intro h
  obtain ⟨id, -, hid⟩ | hj := compile_error h
  · cases hid
  · exact hj

theorem exists_chain_of_free {e : CompileError} (hrec : job.options.recursive = false)
    (hfree : (compile job.free.options job.documents).result = .ok m)
    (hr : (compile job.options job.documents).result = .error e) :
    ∃ chain, e = .cyclicReference chain := by
  by_contra hno
  -- Any other error would be met with recursion too.
  have hlasting : Lasting (compile job.options job.documents).result := by
    rw [hr]
    rintro _ ⟨⟩
    constructor
    · rintro rfl
      exact compile_ne_tooDeep hr
    · rintro chain rfl
      exact hno ⟨chain, rfl⟩
  have hsame := compile_free hrec hlasting
  rw [hfree, hr] at hsame
  cases hsame

theorem not_acyclic_of_chain {chain : List String}
    (hfree : (compile job.free.options job.documents).result = .ok m)
    (hr : (compile job.options job.documents).result = .error (.cyclicReference chain)) :
    ¬ m.Acyclic := by
  obtain ⟨id, -, hid⟩ | hj := compile_error hr
  · cases hid
  · obtain ⟨l, hl, hcycle⟩ := hj.exists_cycle
    have hedges : TransGen job.Edge l l := TransGen.mono (fun _ _ ht => ht.1) _ _ hcycle
    obtain ⟨-, s, hroots, rfl, -⟩ := compile_ok hfree
    have hsettled : s.Settled job.free := settled_of_roots hroots
    exact hsettled.not_acyclic (job.renumbers_free.live hl) (job.renumbers_free.edges hedges)

theorem compile_cases_of_free (hrec : job.options.recursive = false)
    (hfree : (compile job.free.options job.documents).result = .ok m) :
    (compile job.options job.documents).result = .ok m ∧ m.Acyclic ∨
      (∃ chain, (compile job.options job.documents).result = .error (.cyclicReference chain)) ∧
        ¬ m.Acyclic := by
  cases hr : (compile job.options job.documents).result with
  | ok m' =>
    have hsame := compile_free hrec (hr ▸ lasting_ok)
    rw [hfree, hr] at hsame
    obtain rfl := Except.ok.inj hsame
    obtain ⟨-, s, hroots, rfl, -⟩ := compile_ok hr
    have hlayered : s.Layered :=
      hroots.layered hrec (fun i => List.mem_range.mp) (sound_start _) (layered_start _)
    exact .inl ⟨rfl, hlayered.acyclic⟩
  | error e =>
    obtain ⟨chain, rfl⟩ := exists_chain_of_free hrec hfree hr
    exact .inr ⟨⟨chain, rfl⟩, not_acyclic_of_chain hfree hr⟩

/-- To forbid recursion takes away recursive structs and nothing else. What compiles with recursion
compiles to the same structs without it if no struct mentions itself, and is reported as a cycle if
one does; and what compiles without recursion compiles to the same structs with it. -/
theorem compile_recursive_agrees (options : Options) (documents : List Document) (m : StructMap) :
    let free := (compile { options with recursive := true } documents).result
    let strict := (compile { options with recursive := false } documents).result
    (free = .ok m →
      ((∀ a, ¬ TransGen m.Mentions a a) → strict = .ok m) ∧
        ((∃ a, TransGen m.Mentions a a) → ∃ chain, strict = .error (.cyclicReference chain))) ∧
      (strict = .ok m → free = .ok m) := by
  intro free strict
  let job : Job := ⟨documents, { options with recursive := false }⟩
  constructor
  · intro hfree
    have hcases := @compile_cases_of_free job m rfl hfree
    obtain ⟨hstrict, hacyclic⟩ | ⟨hstrict, hcyclic⟩ := hcases
    · refine ⟨fun _ => hstrict, ?_⟩
      rintro ⟨a, ha⟩
      exact absurd ha (hacyclic a)
    · exact ⟨fun hacyclic => absurd hacyclic hcyclic, fun _ => hstrict⟩
  · intro hstrict
    have hlasting : Lasting (compile job.options job.documents).result := by
      rw [show (compile job.options job.documents).result = .ok m from hstrict]
      exact lasting_ok
    exact (compile_free rfl hlasting).trans hstrict

theorem samples_recursive_agrees :
    ∃ m, (compile { samples.options with recursive := true } samples.documents).result = .ok m ∧
      TransGen m.Mentions "Customer" "Customer" ∧
      ∃ chain, (compile { samples.options with recursive := false } samples.documents).result =
        .error (.cyclicReference chain) := by
  obtain ⟨m, h, -⟩ := exists_samples_ok
  have hfields : (compile samples.options samples.documents).result.toOption.bind (fun m =>
      (m.get? "Customer").map fun struct => struct.fields.values.map fun f => f.type.struct?) =
      some [none, some "Customer"] := by decide +kernel
  rw [h] at hfields
  obtain ⟨struct, hs, htypes⟩ := Option.map_eq_some_iff.mp hfields
  have hmem : some "Customer" ∈ struct.fields.values.map fun f => f.type.struct? := by
    rw [htypes]
    simp
  obtain ⟨f, hf, ht⟩ := List.mem_map.mp hmem
  have hmention : TransGen m.Mentions "Customer" "Customer" := .single ⟨struct, hs, f, hf, ht⟩
  have hagrees := compile_recursive_agrees samples.options samples.documents m
  exact ⟨m, h, hmention, (hagrees.1 h).2 ⟨_, hmention⟩⟩

end SchemaStructs
