import Mathlib.Data.List.TakeWhile
import SchemaStructs.Proofs.History
import SchemaStructs.Proofs.Keys
import SchemaStructs.Proofs.Success

namespace SchemaStructs

open Relation (TransGen ReflTransGen)

theorem repeatedId?_eq_some {seen : List String} {documents : List Document} {id : String}
    (h : repeatedId? seen documents = some id) :
    id ≠ "" ∧ ((id ∈ seen ∧ ∃ d ∈ documents, d.id = id) ∨
      ∃ d d', [d, d'].Sublist documents ∧ d.id = id ∧ d'.id = id) := by
  induction documents generalizing seen with
  | nil => cases h
  | cons d ds ih =>
    rw [repeatedId?] at h
    split at h
    next =>
      obtain ⟨hne, ⟨hseen, d', hd', he⟩ | ⟨d₁, d₂, hs, h₁, h₂⟩⟩ := ih h
      · exact ⟨hne, .inl ⟨hseen, d', List.mem_cons_of_mem _ hd', he⟩⟩
      · exact ⟨hne, .inr ⟨d₁, d₂, hs.cons d, h₁, h₂⟩⟩
    next hempty =>
    split at h
    next hseen =>
      cases h
      refine ⟨?_, .inl ⟨by simpa using hseen, d, List.mem_cons_self, rfl⟩⟩
      intro hid
      exact hempty (by simp [hid])
    next =>
      obtain ⟨hne, ⟨hseen, d', hd', he⟩ | ⟨d₁, d₂, hs, h₁, h₂⟩⟩ := ih h
      · refine ⟨hne, ?_⟩
        obtain rfl | hseen := List.mem_cons.mp hseen
        · have hs : [d, d'].Sublist (d :: ds) := (List.singleton_sublist.mpr hd').cons_cons d
          exact .inr ⟨d, d', hs, rfl, he⟩
        · exact .inl ⟨hseen, d', List.mem_cons_of_mem _ hd', he⟩
      · exact ⟨hne, .inr ⟨d₁, d₂, hs.cons d, h₁, h₂⟩⟩

namespace Job

variable (job : Job)

/-- An edge of the cycles that are errors. Where structs may be recursive, it starts at none. -/
def Turn (l m : Location) : Prop :=
  job.Edge l m ∧ (job.options.recursive = true → ¬ job.IsStructAt l)

def Justified : CompileError → Prop
  | .duplicateDocument id =>
    id ≠ "" ∧ ∃ d d', [d, d'].Sublist job.documents ∧ d.id = id ∧ d'.id = id
  | .invalidShape origin typeName =>
    ∃ l n, job.Live l ∧ job.nodeAt? l = some n ∧ job.origin l = origin ∧
      n.typeName = typeName ∧ n.kind? = none
  | .unresolvedReference reference document fault =>
    ∃ l n text, job.Live l ∧ job.nodeAt? l = some n ∧ n.kind? = some (.reference text) ∧
      Reference.resolve job.documents text l.document =
        .error (.unresolvedReference reference document fault)
  | .nameCollision name first second =>
    job.options.policy = .fail ∧ ∃ l l', l ≠ l' ∧ job.origin l = first ∧ job.origin l' = second ∧
      job.Derives l name ∧ job.Derives l' name
  | .cyclicReference chain =>
    ∃ l way, chain = (l :: way ++ [l]).map job.origin ∧ job.Live l ∧
      (l :: way ++ [l]).IsChain (TransGen job.Turn)
  | .tooDeep => False

variable {job} {l : Location}

theorem Link.turn {m : Location} (h : job.Link l m) : job.Turn l m :=
  ⟨.inl h, fun _ => h.not_isStructAt⟩

theorem Justified.exists_cycle {chain : List String} (h : job.Justified (.cyclicReference chain)) :
    ∃ l, job.Live l ∧ TransGen job.Turn l l := by
  obtain ⟨l, way, -, hl, hchain⟩ := h
  have hpairs : (l :: (way ++ [l])).Pairwise (TransGen job.Turn) :=
    List.isChain_iff_pairwise.mp hchain
  have hmem : l ∈ way ++ [l] := List.mem_append_right _ (List.mem_singleton_self l)
  exact ⟨l, hl, (List.pairwise_cons.mp hpairs).1 l hmem⟩

end Job

namespace Synthesis

variable {job : Job} {s s' : Synthesis} {l here target : Location} {node : Node} {key : String}

/-- How the walk came to `here`: every struct that is open leads here, and so do links from every
target that was entered since the last struct was opened. -/
structure Route (job : Job) (s : Synthesis) (here : Location) : Prop where
  opened : ∀ d ∈ s.registry.declarations, s.registry.structs.get? d.name = none →
    TransGen job.Edge d.location here
  linked : s.Linked job here
  stacked : s.inFlight.Pairwise fun e e' =>
    e.2 ≤ e'.2 ∧ (e.2 = e'.2 → TransGen job.Link e.1 e'.1)

namespace Route

theorem link (h : s.Route job here) (hl : job.Link here l) : s.Route job l := by
  refine ⟨?_, h.linked.link hl, h.stacked⟩
  intro d hd hopen
  exact (h.opened d hd hopen).tail (.inl hl)

theorem enter (h : s.Route job here) (hl : job.Link here target) :
    (s.enter target).Route job target := by
  refine ⟨(h.link hl).opened, h.linked.enter hl, ?_⟩
  apply List.pairwise_append.mpr
  refine ⟨h.stacked, List.pairwise_singleton _ _, ?_⟩
  intro e he e' he'
  obtain rfl := List.mem_singleton.mp he'
  obtain ⟨hle, hlinks⟩ := h.linked e he
  exact ⟨hle, fun heq => .tail' (hlinks heq) hl⟩

theorem slot {name : String} {registry : Registry} {events : List Event} {slot : Slot}
    (h : s.Route job here) (ho : Opens job s node here key name registry events)
    (hm : slot ∈ node.slots name) (hf : (s.opened registry events).Finished s') :
    s'.Route job (here.join slot.segment) := by
  have he : job.Edge here (here.join slot.segment) :=
    .inr (Job.part_slot ho.found ho.isStruct hm)
  refine ⟨?_, h.linked.opened.finished hf, ?_⟩
  · intro d hd hopen
    obtain hold | ⟨struct, hs⟩ := hf.completes d hd
    · have hnone : s.registry.structs.get? d.name = none := by
        have hsame := hf.registry.structs d.name (Registry.mem_names.mpr ⟨d, hold, rfl⟩)
        rw [ho.registry_opened] at hsame
        exact hsame.symm.trans hopen
      rw [ho.registry_opened] at hold
      obtain hold | hnew := List.mem_append.mp hold
      · exact (h.opened d hold hnone).tail he
      · obtain rfl := List.mem_singleton.mp hnew
        exact .single he
    · simp [hs] at hopen
  · rw [hf.inFlight]
    exact h.stacked

theorem marked (h : s.Route job here) (text : String) :
    (s.marked job text here target).Route job here := ⟨h.opened, h.linked, h.stacked⟩

/-- Where a cycle is reported, the targets that are named follow one another by links. -/
theorem exists_way (h : s.Route job here) (hl : job.Link here target) {recursive : Bool}
    (hc : s.reentry recursive target = .cycle) :
    ∃ way, s.cycleThrough target = target :: way ++ [target] ∧
      (s.cycleThrough target).Pairwise (TransGen job.Link) := by
  obtain ⟨opened, hf, hle⟩ := reentry_cycle hc
  rw [List.find?_eq_head?_dropWhile_not] at hf
  simp only [← decide_not] at hf
  obtain ⟨rest, hrest⟩ := List.head?_eq_some_iff.mp hf
  have hpairs : ((target, opened) :: rest).Pairwise fun e e' =>
      e.2 ≤ e'.2 ∧ (e.2 = e'.2 → TransGen job.Link e.1 e'.1) := by
    rw [← hrest]
    exact h.stacked.sublist (List.dropWhile_sublist _)
  have hlinked : ∀ e ∈ (target, opened) :: rest, e.2 ≤ s.openStructs ∧
      (e.2 = s.openStructs → ReflTransGen job.Link e.1 here) := by
    rw [← hrest]
    intro e he
    exact h.linked e ((List.dropWhile_sublist _).subset he)
  -- No struct was opened since the first of these targets was entered, so all of their counts are
  -- the same.
  have hcount : ∀ e ∈ (target, opened) :: rest, e.2 = s.openStructs := by
    intro e he
    have hupper := (hlinked e he).1
    obtain rfl | he := List.mem_cons.mp he
    · exact Nat.le_antisymm hupper hle
    · have hlower := ((List.pairwise_cons.mp hpairs).1 e he).1
      simp only at hlower
      omega
  have hway : s.cycleThrough target = target :: rest.map Prod.fst ++ [target] := by
    rw [cycleThrough, hrest]
    rfl
  refine ⟨rest.map Prod.fst, hway, ?_⟩
  rw [hway, ← List.map_cons (f := Prod.fst) (a := (target, opened))]
  apply List.pairwise_append.mpr
  refine ⟨?_, List.pairwise_singleton _ _, ?_⟩
  · apply List.pairwise_map.mpr
    refine hpairs.imp_of_mem ?_
    intro e e' he he' hp
    exact hp.2 ((hcount e he).trans (hcount e' he').symm)
  · intro m hm m' hm'
    obtain rfl := List.mem_singleton.mp hm'
    obtain ⟨e, he, rfl⟩ := List.mem_map.mp hm
    exact .tail' ((hlinked e he).2 (hcount e he)) hl

end Route

theorem isDefined_eq_false {name : String} (hname : s.registry.nameOf? l = some name)
    (hd : s.registry.isDefined l = false) : s.registry.structs.get? name = none := by
  simpa [Registry.isDefined, hname, Dict.contains] using hd

theorem Route.justified_of_open {name : String} (h : s.Route job here) (hl : job.Live here)
    (hrec : job.options.recursive = false) (hname : s.registry.nameOf? here = some name)
    (hopen : s.registry.structs.get? name = none) :
    job.Justified (.cyclicReference [job.origin here, job.origin here]) := by
  obtain ⟨d, hd, rfl, rfl⟩ := Registry.exists_of_nameOf? hname
  have hcycle : TransGen job.Turn d.location d.location := by
    refine TransGen.mono ?_ _ _ (h.opened d hd hopen)
    intro l m he
    exact ⟨he, fun htrue => by simp [hrec] at htrue⟩
  exact ⟨d.location, [], rfl, hl, by simpa using hcycle⟩

theorem Route.justified_of_cycle {recursive : Bool} (h : s.Route job here)
    (hl : job.Link here target) (hlive : job.Live target)
    (hc : s.reentry recursive target = .cycle) :
    job.Justified (.cyclicReference ((s.cycleThrough target).map job.origin)) := by
  obtain ⟨way, hway, hpairs⟩ := h.exists_way hl hc
  rw [hway] at hpairs ⊢
  refine ⟨target, way, rfl, hlive, ?_⟩
  apply hpairs.isChain.imp
  exact TransGen.mono fun _ _ => Job.Link.turn

theorem Given.justified_of_declare (h : s.Given job) (hn : job.nodeAt? here = some node)
    (hst : node.isStruct) (hk : job.Arrives here key) (hname : s.registry.nameOf? here = none)
    {qualifier : Option String} {e : CompileError}
    (hd : s.registry.declare here (Naming.typeName node.head.title key) (job.origin here)
      qualifier = .error e) : job.Justified e := by
  obtain ⟨hp, owner, ho, rfl⟩ := Registry.declare_error hd
  have hfail : job.options.policy = .fail := h.policy.symm.trans hp
  obtain ⟨hmem, hbase⟩ := Registry.mem_of_owner? ho
  refine ⟨hfail, owner.location, here, ?_, (h.origin owner hmem).symm, rfl, ?_, ?_⟩
  · exact Registry.nameOf?_eq_none_iff.mp hname owner hmem
  · exact hbase ▸ h.derived hfail owner hmem
  · exact ⟨node, key, hn, hst, hk.2 hfail, rfl⟩

/-- An error is reported at a node that the walk came to, and is true there. -/
theorem walk_justified {n : Nat} {e : CompileError}
    (h : walk job n node here key s = (.error e, s')) (hn : job.nodeAt? here = some node)
    (hs : s.Sound job) (hg : s.Given job) (hk : job.Arrives here key) (hr : s.Route job here) :
    e = .tooDeep ∨ job.Justified e := by
  induction n generalizing node here key s s' with
  | zero =>
    cases h
    exact .inl rfl
  | succ n ih =>
    generalize hres : Except.error e = r at h
    cases walk_succ_iff.mp h with
    | leaf | cached | forward | entered | known | built => cases hres
    | shape hkind =>
      cases hres
      exact .inr ⟨here, node, hk.1, hn, rfl, rfl, hkind⟩
    | items hkind hw =>
      rw [Synth.map_eq_error hres.symm] at hw
      exact ih hw (Job.nodeAt?_items hn hkind) hs hg (passes_arrives.items hk hn hkind)
        (hr.link (.items hn hkind))
    | value hkind hw =>
      rw [Synth.map_eq_error hres.symm] at hw
      exact ih hw (Job.nodeAt?_value hn hkind) hs hg (passes_arrives.value hk hn hkind)
        (hr.link (.value hn hkind))
    | unresolved hkind ht =>
      obtain ⟨fault, rfl⟩ := Reference.resolve_error ht
      cases hres
      exact .inr ⟨here, node, _, hk.1, hn, hkind, ht⟩
    | cycle hkind ht _ he =>
      cases hres
      have hl : job.Link here _ := .reference hn hkind ht
      exact .inr (hr.justified_of_cycle hl (.edge hk.1 (.inl hl)) he)
    | @lost text target _ _ hkind ht _ _ hw =>
      cases hres
      have hmarked : (s.marked job text here target.location).Route job here := hr.marked text
      refine ih hw (Reference.nodeAt?_of_resolve ht) ((hs.marked _ _).enter _) ?_
        (passes_arrives.target hk hn hkind ht) (hmarked.enter (.reference hn hkind ht))
      exact keeps_given.still hg rfl rfl
    | reopened _ hname hrec hd =>
      cases hres
      exact .inr (hr.justified_of_open hk.1 hrec hname (isDefined_eq_false hname hd))
    | unnamed hst hname hd =>
      cases hres
      exact .inr (hg.justified_of_declare hn hst hk hname hd)
    | @unbuilt name registry events _ _ hst hname hd hf =>
      cases hres
      have ho : Opens job s node here key name registry events := ⟨hn, hst, hname, hd⟩
      let I : Synthesis → Prop := fun s₁ =>
        (s.opened registry events).Finished s₁ ∧ s₁.Sound job ∧ s₁.Given job
      have hw : ∀ slot ∈ node.slots name, ∀ s₁ τ s₂,
          walk job n slot.node (here.join slot.segment) slot.key s₁ = (.ok τ, s₂) →
          I s₁ → I s₂ := by
        rintro slot hm s₁ τ s₂ hw ⟨hfin, hs₁, hg₁⟩
        have hn₁ := Job.nodeAt?_slot hn hm
        have hk₁ := passes_arrives.slot hk hg ho hm
        have hfin₁ : s₁.Finished s₂ := walk_after hw
        exact ⟨hfin.trans hfin₁, (walk_faithful n _ _ _ _ _ _ hw hn₁ hs₁).1,
          keeps_given.walk hw hn₁ hk₁ hs₁ hg₁⟩
      obtain ⟨slot, hm, s₁, ⟨hfin, hs₁, hg₁⟩, hfail⟩ :=
        hf.exists_error hw ⟨.refl _, ho.sound hs, keeps_given.opened hg hs hk ho⟩
      exact ih hfail (Job.nodeAt?_slot hn hm) hs₁ hg₁ (passes_arrives.slot hk hg ho hm)
        (hr.slot ho hm hfin)

structure Ready (job : Job) (s : Synthesis) : Prop extends s.Complete job where
  given : s.Given job
  inFlight : s.inFlight = []

theorem ready_start : (start job.options).Ready job :=
  ⟨⟨sound_start _, nofun⟩, given_start, rfl⟩

theorem Ready.route (h : s.Ready job) (l : Location) : s.Route job l := by
  refine ⟨?_, linked_of_inFlight h.inFlight, ?_⟩
  · intro d hd hopen
    obtain ⟨struct, hs⟩ := h.defined d hd
    simp [hs] at hopen
  · rw [h.inFlight]
    exact .nil

theorem Ready.walk {n : Nat} {τ : TypeDesc} (h : s.Ready job)
    (hw : walk job n node here key s = (.ok τ, s')) (hn : job.nodeAt? here = some node)
    (hk : job.Arrives here key) : s'.Ready job := by
  have hfin : s.Finished s' := walk_after hw
  refine ⟨⟨(walk_faithful n _ _ _ _ _ _ hw hn h.sound).1, ?_⟩,
    keeps_given.walk hw hn hk h.sound h.given, hfin.inFlight.trans h.inFlight⟩
  intro d hd
  obtain hold | hnew := hfin.completes d hd
  · obtain ⟨struct, hs⟩ := h.defined d hold
    refine ⟨struct, ?_⟩
    rw [hfin.registry.structs _ (Registry.mem_names.mpr ⟨d, hold, rfl⟩)]
    exact hs
  · exact hnew

theorem arrives_root {i : Nat} (hi : i < job.documents.length) :
    job.Arrives (.root i) (job.rootKey i) :=
  ⟨.root hi, fun _ => .root hi⟩

theorem Roots.ready {is : List Nat} (h : Roots job is s (.ok ()) s')
    (hi : ∀ i ∈ is, i < job.documents.length) (hs : s.Ready job) : s'.Ready job := by
  generalize hres : Except.ok () = r at h
  induction h with
  | nil => exact hs
  | fail => cases hres
  | cons hw _ ih =>
    have hlt := hi _ List.mem_cons_self
    obtain ⟨node, hn, hroot⟩ := exists_root hlt
    rw [hroot] at hw
    exact ih (fun i hm => hi i (List.mem_cons_of_mem _ hm)) (hs.walk hw hn (arrives_root hlt)) hres

theorem Roots.justified {is : List Nat} {e : CompileError} (h : Roots job is s (.error e) s')
    (hi : ∀ i ∈ is, i < job.documents.length) (hs : s.Ready job) : job.Justified e := by
  generalize hres : Except.error e = r at h
  induction h with
  | nil => cases hres
  | cons hw _ ih =>
    have hlt := hi _ List.mem_cons_self
    obtain ⟨node, hn, hroot⟩ := exists_root hlt
    rw [hroot] at hw
    exact ih (fun i hm => hi i (List.mem_cons_of_mem _ hm)) (hs.walk hw hn (arrives_root hlt)) hres
  | fail hw =>
    cases hres
    have hlt := hi _ List.mem_cons_self
    obtain ⟨node, hn, hroot⟩ := exists_root hlt
    rw [hroot] at hw
    obtain rfl | hj := walk_justified hw hn hs.sound hs.given (arrives_root hlt) (hs.route _)
    · exact absurd (congrArg Prod.fst hw) (synthesize_ne_tooDeep hn hs.sound hs.inFlight)
    · exact hj

end Synthesis

open Synthesis

variable {job : Job}

theorem compile_of_roots {s : Synthesis} {r : Except CompileError Unit}
    (hid : repeatedId? [] job.documents = none)
    (h : Roots job (List.range job.documents.length) (start job.options) r s) :
    (compile job.options job.documents).result = r.map fun _ => s.registry.structs := by
  have hrun : synthesizeRoots job (start job.options) = (r, s) := synthesizeRoots_iff.mpr h
  rw [compile, hid]
  simp only [hrun]
  cases r with
  | error e => rfl
  | ok u => rfl

theorem compile_error {e : CompileError}
    (h : (compile job.options job.documents).result = .error e) :
    (∃ id, repeatedId? [] job.documents = some id ∧ e = .duplicateDocument id) ∨
      job.Justified e := by
  cases hid : repeatedId? [] job.documents with
  | some id =>
    rw [compile, hid] at h
    exact .inl ⟨id, rfl, (Except.error.inj h).symm⟩
  | none =>
    cases hrun : synthesizeRoots job (start job.options) with
    | mk r s =>
      have hroots := synthesizeRoots_iff.mp hrun
      rw [compile_of_roots hid hroots] at h
      rw [Synth.map_eq_error h] at hroots
      exact .inr (hroots.justified (fun i => List.mem_range.mp) ready_start)

/-- Every error is real: what it says is true of nodes that the roots lead to, and of the identities
of the documents. -/
theorem compile_error_justified {e : CompileError}
    (h : (compile job.options job.documents).result = .error e) : job.Justified e := by
  obtain ⟨id, hid, rfl⟩ | hj := compile_error h
  · obtain ⟨hne, ⟨hseen, -⟩ | hshared⟩ := repeatedId?_eq_some hid
    · cases hseen
    · exact ⟨hne, hshared⟩
  · exact hj

theorem endless_error_justified :
    (compile endless.options endless.documents).result =
        .error (.cyclicReference ["endless#", "endless#"]) ∧
      endless.Justified (.cyclicReference ["endless#", "endless#"]) := by
  have h : (compile endless.options endless.documents).result =
      .error (.cyclicReference ["endless#", "endless#"]) := by decide +kernel
  exact ⟨h, compile_error_justified h⟩

end SchemaStructs
