import SchemaStructs.Proofs.Soundness

namespace SchemaStructs

theorem Reference.resolve_error {documents : List Document} {text : String} {i : Nat}
    {e : CompileError} (h : resolve documents text i = .error e) :
    ∃ fault, e = .unresolvedReference text (documentId documents i) fault := by
  unfold resolve at h
  dsimp only at h
  split at h
  next => exact ⟨_, (Except.error.inj h).symm⟩
  next =>
  split at h
  next => exact ⟨_, (Except.error.inj h).symm⟩
  next =>
  split at h
  next => exact ⟨_, (Except.error.inj h).symm⟩
  next => cases h

namespace Synthesis

inductive Fails (job : Job) (n : Nat) (node : Node) (here : Location) (s : Synthesis) :
    CompileError → Prop
  | shape (hk : node.kind? = none) :
    Fails job n node here s (.invalidShape (job.origin here) node.typeName)
  | unresolved {text : String} {fault : ReferenceFault} (hk : node.kind? = some (.reference text))
    (ht : Reference.resolve job.documents text here.document = .error
      (.unresolvedReference text (Reference.documentId job.documents here.document) fault)) :
    Fails job n node here s
      (.unresolvedReference text (Reference.documentId job.documents here.document) fault)
  | cycle {text : String} {target : Target} (hk : node.kind? = some (.reference text))
    (ht : Reference.resolve job.documents text here.document = .ok target)
    (he : s.reentry job.options.recursive target.location = .cycle) :
    Fails job n node here s
      (.cyclicReference ((s.cycleThrough target.location).map job.origin))
  | reopened (hs : node.isStruct) (hr : job.options.recursive = false)
    (hd : s.registry.isDefined here = false) :
    Fails job n node here s (.cyclicReference [job.origin here, job.origin here])
  | unnamed {base : String} {owner : Declaration} (hs : node.isStruct)
    (hp : s.registry.policy = .fail) (ho : s.registry.owner? base = some owner) :
    Fails job n node here s (.nameCollision base owner.origin (job.origin here))
  | child {segment : Segment} {m : Node} {key : String} {e : CompileError} {s' : Synthesis}
    (hl : job.Link here (here.join segment)) (hm : node.child? segment = some m)
    (hw : walk job n m (here.join segment) key s = (.error e, s')) : Fails job n node here s e
  | target {text : String} {target : Target} {e : CompileError} {s' : Synthesis}
    (hl : job.Link here target.location) (hm : job.nodeAt? target.location = some target.node)
    (he : s.reentry job.options.recursive target.location = .enter)
    (hw : walk job n target.node target.location (job.targetKey target.location)
      ((s.marked job text here target.location).enter target.location) = (.error e, s')) :
    Fails job n node here s e
  | slot {slot : Slot} {base name : String} {registry : Registry} {events : List Event}
    {e : CompileError} {s₁ s' : Synthesis}
    (hs : node.isStruct) (hname : s.registry.nameOf? here = none)
    (hd : s.registry.declare here base (job.origin here) (job.stem? here.document) =
      .ok (name, registry, events))
    (hm : slot ∈ node.slots name) (hf : (s.opened registry events).Finished s₁)
    (hs₁ : s₁.Sound job)
    (hw : walk job n slot.node (here.join slot.segment) slot.key s₁ = (.error e, s')) :
    Fails job n node here s e

variable {job : Job} {s s' : Synthesis} {here : Location} {node : Node} {key : String}

theorem fails_of_walk {n : Nat} {e : CompileError}
    (h : walk job (n + 1) node here key s = (.error e, s')) (hn : job.nodeAt? here = some node)
    (hs : s.Sound job) : Fails job n node here s e := by
  generalize hr : Except.error e = r at h
  cases walk_succ_iff.mp h with
  | leaf | cached | forward | entered | known | built => cases hr
  | shape hk =>
    cases hr
    exact .shape hk
  | items hk hw =>
    rw [Synth.map_eq_error hr.symm] at hw
    exact .child (.items hn hk) (Node.items?_of_kind? hk) hw
  | value hk hw =>
    rw [Synth.map_eq_error hr.symm] at hw
    exact .child (.value hn hk) (Node.extra?_of_kind?_map hk) hw
  | unresolved hk ht =>
    obtain ⟨fault, rfl⟩ := Reference.resolve_error ht
    cases hr
    exact .unresolved hk ht
  | cycle hk ht _ he =>
    cases hr
    exact .cycle hk ht he
  | lost hk ht _ he hw =>
    cases hr
    exact .target (.reference hn hk ht) (Reference.nodeAt?_of_resolve ht) he hw
  | reopened hst _ hrec hd =>
    cases hr
    exact .reopened hst hrec hd
  | unnamed hst _ hd =>
    obtain ⟨hp, owner, ho, rfl⟩ := Registry.declare_error hd
    cases hr
    exact .unnamed hst hp ho
  | unbuilt hst hname hd hf =>
    cases hr
    obtain ⟨slot, hm, s₁, hfin, hs₁, hw⟩ := hf.exists_fail (fun _ _ _ _ _ _ => walk_after)
      (walk_faithful n) (fun _ => Job.nodeAt?_slot hn) (hs.opened ⟨node, hn, hst⟩ hname hd)
    exact .slot hst hname hd hm hfin hs₁ hw

end Synthesis

end SchemaStructs
