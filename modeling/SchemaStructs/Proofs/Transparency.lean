import SchemaStructs.Proofs.Inlining

namespace SchemaStructs

theorem forall₂_find? {α β : Type} {P : α → β → Prop} {xs : List α} {ys : List β} {p : α → Bool}
    {q : β → Bool} (h : List.Forall₂ P xs ys) (hpq : ∀ a b, P a b → q b = p a) :
    Option.Rel P (xs.find? p) (ys.find? q) := by
  induction h with
  | nil => exact .none
  | @cons a b _ _ hab _ ih =>
    rw [List.find?_cons, List.find?_cons, hpq a b hab]
    cases p a with
    | true => exact .some hab
    | false => exact ih

namespace Inlining

open Synthesis

variable {documents : List Document} (x : Inlining documents)

/-- What walks side by side know: the same names for the same nodes, and the same structs. What is
known of the definition itself is left out, since no other reference asks for it. -/
structure Carried (s s' : Synthesis) : Prop where
  policy : s'.registry.policy = s.registry.policy
  declarations : List.Forall₂ (fun a b => x.Moved a.location b.location ∧ b.name = a.name)
    s.registry.declarations s'.registry.declarations
  structs : ∀ name, Option.Rel (Struct.Like x.key (s.registry.nameOf? x.hostAt = some name))
    (s.registry.structs.get? name) (s'.registry.structs.get? name)
  openStructs : s'.openStructs = s.openStructs
  inFlight : ∀ l, x.Apart l →
    s'.inFlight.find? (fun e => e.1 = l) = s.inFlight.find? (fun e => e.1 = l)
  resolved : ∀ l, x.Apart l → s'.resolvedType? l = s.resolvedType? l

variable {x} {s s' t t' : Synthesis} {l l' : Location}

namespace Carried

theorem start (options : Options) : x.Carried (start options) (start options) where
  policy := rfl
  declarations := .nil
  structs := fun _ => .none
  openStructs := rfl
  inFlight := fun _ _ => rfl
  resolved := fun _ _ => rfl

variable (h : x.Carried s s')

include h

theorem nameOf? (hl : x.Moved l l') : s'.registry.nameOf? l' = s.registry.nameOf? l := by
  have hfind := forall₂_find? (p := fun d => d.location = l) (q := fun d => d.location = l')
    h.declarations fun a b hab => by simp [hab.1.eq_iff hl]
  unfold Registry.nameOf?
  generalize s.registry.declarations.find? _ = a, s'.registry.declarations.find? _ = b at hfind
  cases hfind with
  | none => rfl
  | some hab => simp [hab.2]

theorem owner? (name : String) :
    Option.Rel (fun a b => x.Moved a.location b.location ∧ b.name = a.name)
      (s.registry.owner? name) (s'.registry.owner? name) :=
  forall₂_find? h.declarations fun a b hab => by simp [hab.2]

theorem names : s'.registry.names = s.registry.names := by
  have hd := h.declarations
  unfold Registry.names
  generalize s.registry.declarations = ds, s'.registry.declarations = ds' at hd
  induction hd with
  | nil => rfl
  | cons hab _ ih => simp [hab.2, ih]

theorem isNone_owner? (name : String) :
    (s'.registry.owner? name).isNone = (s.registry.owner? name).isNone := by
  have howner := h.owner? name
  generalize s.registry.owner? name = a, s'.registry.owner? name = b at howner
  cases howner <;> rfl

theorem disambiguate {a b : Declaration} (hab : x.Moved a.location b.location)
    (hl : x.Moved l l') (base : String) (qualifier : Option String) :
    s'.registry.disambiguate b l' base qualifier =
      s.registry.disambiguate a l base qualifier := by
  simp only [Registry.disambiguate, hab.document, hl.document, h.names, h.isNone_owner?]

theorem declare (hl : x.Moved l l') (hname : s.registry.nameOf? l = none)
    (base origin origin' : String) (qualifier : Option String) :
    (∃ e e', s.registry.declare l base origin qualifier = .error e ∧
      s'.registry.declare l' base origin' qualifier = .error e') ∨
    ∃ name events events',
      s.registry.declare l base origin qualifier =
        .ok (name, s.registry.record ⟨l, name, origin⟩, events) ∧
      s'.registry.declare l' base origin' qualifier =
        .ok (name, s'.registry.record ⟨l', name, origin'⟩, events') := by
  have howner := h.owner? base
  simp only [Registry.declare, hname, (h.nameOf? hl).trans hname, h.policy]
  generalize s.registry.owner? base = a, s'.registry.owner? base = b at howner
  cases howner with
  | none => exact .inr ⟨_, _, _, rfl, rfl⟩
  | some hab =>
    cases s.registry.policy with
    | fail => exact .inl ⟨_, _, rfl, rfl⟩
    | disambiguate =>
      simp only [h.disambiguate hab.1 hl]
      exact .inr ⟨_, _, _, rfl, rfl⟩

theorem note (events events' : List Event) : x.Carried (s.note events) (s'.note events') :=
  ⟨h.policy, h.declarations, h.structs, h.openStructs, h.inFlight, h.resolved⟩

theorem opened (hl : x.Moved l l') (name origin origin' : String) (events events' : List Event) :
    x.Carried (s.opened (s.registry.record ⟨l, name, origin⟩) events)
      (s'.opened (s'.registry.record ⟨l', name, origin'⟩) events') where
  policy := h.policy
  declarations := List.rel_append h.declarations (.cons ⟨hl, rfl⟩ .nil)
  structs := by
    intro name'
    have hstruct := h.structs name'
    change Option.Rel _ (s.registry.structs.get? name') (s'.registry.structs.get? name')
    generalize s.registry.structs.get? name' = a, s'.registry.structs.get? name' = b at hstruct ⊢
    cases hstruct with
    | none => exact .none
    | some hab => exact .some (hab.mono fun he => Registry.grows_record.nameOf? he)
  openStructs := congrArg (· + 1) h.openStructs
  inFlight := h.inFlight
  resolved := h.resolved

theorem closed {struct struct' : Struct}
    (hlike : Struct.Like x.key (s.registry.nameOf? x.hostAt = some struct.name) struct struct') :
    x.Carried (s.closed struct) (s'.closed struct') where
  policy := h.policy
  declarations := h.declarations
  structs := by
    intro name
    simp only [Synthesis.closed, Registry.define, hlike.name]
    by_cases hname : name = struct.name
    · subst hname
      rw [Dict.get?_insert_self, Dict.get?_insert_self]
      exact .some hlike
    · rw [Dict.get?_insert_of_ne _ hname, Dict.get?_insert_of_ne _ hname]
      exact h.structs name
  openStructs := congrArg (· - 1) h.openStructs
  inFlight := h.inFlight
  resolved := h.resolved

theorem enter (l : Location) : x.Carried (s.enter l) (s'.enter l) := by
  refine ⟨h.policy, h.declarations, h.structs, h.openStructs, ?_, h.resolved⟩
  intro m hm
  simp only [Synthesis.enter, List.find?_append, h.inFlight m hm, h.openStructs]

/-- Only the walk of the reference enters the definition. -/
theorem enter_target : x.Carried (s.enter x.target) s' := by
  refine ⟨h.policy, h.declarations, h.structs, h.openStructs, ?_, h.resolved⟩
  intro m hm
  simp [Synthesis.enter, List.find?_append, h.inFlight m hm, hm.ne_target]

theorem leave (ht : x.Carried t t') (l : Location) (τ : TypeDesc)
    (hin : t.inFlight = (s.enter l).inFlight) (hin' : t'.inFlight = (s'.enter l).inFlight) :
    x.Carried (t.leave.remember l τ) (t'.leave.remember l τ) := by
  refine ⟨ht.policy, ht.declarations, ht.structs, ht.openStructs, ?_, ?_⟩
  · intro m hm
    have hflight := h.inFlight m hm
    simpa [remember, Synthesis.leave, hin, hin', Synthesis.enter] using hflight
  · intro m hm
    have hresolved := ht.resolved m hm
    unfold resolvedType? at hresolved ⊢
    simp only [remember, Synthesis.leave, List.find?_cons]
    split
    · rfl
    · exact hresolved

omit h in
theorem leave_target (ht : x.Carried t t') (τ : TypeDesc)
    (hin : t.inFlight = (s.enter x.target).inFlight) :
    x.Carried (t.leave.remember x.target τ) t' := by
  refine ⟨ht.policy, ht.declarations, ht.structs, ht.openStructs, ?_, ?_⟩
  · intro m hm
    rw [ht.inFlight m hm]
    simp [remember, Synthesis.leave, hin, Synthesis.enter, List.find?_append, hm.ne_target]
  · intro m hm
    rw [ht.resolved m hm]
    simp [resolvedType?, remember, Synthesis.leave, hm.ne_target]

theorem isDefined (hl : x.Moved l l') : s'.registry.isDefined l' = s.registry.isDefined l := by
  rw [Registry.isDefined, Registry.isDefined, h.nameOf? hl]
  cases s.registry.nameOf? l with
  | none => rfl
  | some name =>
    have hstruct := h.structs name
    dsimp only [Dict.contains]
    generalize s.registry.structs.get? name = a, s'.registry.structs.get? name = b at hstruct
    cases hstruct <;> rfl

theorem reentry (hl : x.Apart l) (recursive : Bool) :
    s'.reentry recursive l = s.reentry recursive l := by
  simp only [Synthesis.reentry, h.inFlight l hl, h.nameOf? (.apart hl), h.openStructs]

end Carried

variable (x)

structure Untouched (s : Synthesis) : Prop where
  resolvedType? : s.resolvedType? x.target = none
  inFlight : s.inFlight.find? (fun e => e.1 = x.target) = none

def Poised (s : Synthesis) : Prop :=
  (∃ name, s.registry.nameOf? x.hostAt = some name) ∨ x.Untouched s

structure Keeps (s t : Synthesis) : Prop where
  nameOf? : ∀ {name}, s.registry.nameOf? x.hostAt = some name →
    t.registry.nameOf? x.hostAt = some name
  untouched : x.Untouched s → x.Untouched t

variable {x}

theorem Keeps.poised (h : x.Keeps s t) (hs : x.Poised s) : x.Poised t := by
  obtain ⟨name, hname⟩ | hu := hs
  · exact .inl ⟨name, h.nameOf? hname⟩
  · exact .inr (h.untouched hu)

theorem keeps_note (events : List Event) : x.Keeps s (s.note events) := ⟨id, fun h => ⟨h.1, h.2⟩⟩

theorem keeps_opened (name origin : String) (events : List Event) :
    x.Keeps s (s.opened (s.registry.record ⟨l, name, origin⟩) events) := by
  refine ⟨?_, fun h => ⟨h.1, h.2⟩⟩
  intro name' hname
  exact Registry.grows_record.nameOf? hname

theorem keeps_closed (struct : Struct) : x.Keeps s (s.closed struct) := ⟨id, fun h => ⟨h.1, h.2⟩⟩

theorem keeps_enter (hl : x.Apart l) : x.Keeps s (s.enter l) := by
  refine ⟨id, fun h => ⟨h.1, ?_⟩⟩
  simp [enter, List.find?_append, h.2, Ne.symm hl.ne_target]

theorem keeps_leave (hl : x.Apart l) (τ : TypeDesc) (hin : t.inFlight = (s.enter l).inFlight) :
    x.Keeps t (t.leave.remember l τ) := by
  refine ⟨id, fun h => ⟨?_, ?_⟩⟩
  · simpa [resolvedType?, remember, leave, Ne.symm hl.ne_target] using h.1
  · have hflight := h.2
    rw [hin] at hflight
    simpa [remember, leave, hin, enter, List.find?_append, Ne.symm hl.ne_target] using hflight

section
variable {key key' : String} {n n' : Node}

theorem sameNames_result (options : Options) :
    SameNames (Job.mk documents options).documents (Job.mk x.result options).documents :=
  sameNames_graft x.found

theorem Corresponds.step {s : Segment} {m : Node} (h : x.Corresponds l key l' key')
    (hn : Reference.nodeAt? documents l = some n) (hnot : n.isStruct = false)
    (hs : s = .items ∨ s = .additional) (hm : n.child? s = some m) :
    x.Corresponds (l.join s) key (l'.join s) key' := by
  cases h with
  | apart h =>
    refine .apart (h.join ?_ ?_)
    · rintro name rfl
      simp at hs
    · intro he
      obtain ⟨-, rfl⟩ := join_eq_property he
      simp at hs
  | @inside r c _ _ hc hkeys =>
    rw [x.nodeAt?_target, hc] at hn
    cases hn
    rw [Location.below_join, Location.below_join]
    refine .inside (n := m) ?_ (hkeys.of_not_isStruct hnot)
    simp [Node.lookup_append, hc, Node.lookup_cons, hm]

theorem Corresponds.slot {name : String} {slot : Slot} (h : x.Corresponds l key l' key')
    (hn : Reference.nodeAt? documents l = some n) (hm : slot ∈ n.slots name)
    (hne : l = x.hostAt → slot.segment ≠ .property x.key) :
    x.Corresponds (l.join slot.segment) slot.key (l'.join slot.segment) slot.key := by
  cases h with
  | apart h =>
    refine .apart (h.join (Node.segment_ne_definition hm) ?_)
    intro he
    obtain ⟨hl, hs⟩ := join_eq_property he
    exact hne hl hs
  | @inside r c _ _ hc hkeys =>
    rw [x.nodeAt?_target, hc] at hn
    cases hn
    have hfound : (Job.mk documents {}).nodeAt? (x.target.below r) = some n :=
      (x.nodeAt?_target r).trans hc
    have hchild := Job.nodeAt?_slot hfound hm
    rw [Location.below_join, Job.nodeAt?, x.nodeAt?_target] at hchild
    rw [Location.below_join, Location.below_join]
    exact .inside hchild (.inl rfl)

theorem Corresponds.resolve_cases {text text' : String} (h : x.Corresponds l key l' key')
    (hn : Reference.nodeAt? documents l = some n) (hn' : Reference.nodeAt? x.result l' = some n')
    (hk : n.kind? = some (.reference text)) (hk' : n'.kind? = some (.reference text')) :
    (∃ target target', Reference.resolve documents text l.document = .ok target ∧
      Reference.resolve x.result text' l'.document = .ok target' ∧
      target'.location = target.location ∧ x.Apart target.location) ∨
    ∃ e e', Reference.resolve documents text l.document = .error e ∧
      Reference.resolve x.result text' l'.document = .error e' := by
  have ht := Node.reference_of_kind? hk
  have ht' := Node.reference_of_kind? hk'
  rw [(h.moved.alike hn hn').1, ht] at ht'
  cases ht'
  cases h with
  | inside hc =>
    rw [x.nodeAt?_target] at hn
    cases ht.symm.trans (x.plain _ _ hn)
  | apart h =>
    have hne : l ≠ x.property := by
      rintro rfl
      exact h.1 Location.covers_self
    have hapart : ∀ m, Reference.aim documents text l.document = .ok m → x.Apart m :=
      fun m hm => x.alone l m hne (Reference.pointee?_of_aim hn ht hm)
    obtain ⟨target, target', hr, hr', hloc⟩ | ⟨fault, hr, hr'⟩ :=
      Reference.resolve_cases ((sameNames_result {}).aim rfl rfl _)
        ((sameNames_result {}).documentId _)
        fun m hm => Reference.isSome_nodeAt?_graft x.found (hapart m hm).1
    · exact .inl ⟨target, target', hr, hr', hloc, hapart _ (Reference.aim_of_resolve hr)⟩
    · exact .inr ⟨_, _, hr, hr'⟩

theorem Corresponds.typeName (h : x.Corresponds l key l' key')
    (hn : Reference.nodeAt? documents l = some n) (hn' : Reference.nodeAt? x.result l' = some n') :
    Naming.typeName n'.head.title key' = Naming.typeName n.head.title key := by
  rw [(h.moved.alike hn hn').1]
  cases h with
  | apart => rfl
  | inside hc hkeys =>
    rw [x.nodeAt?_target, hc] at hn
    cases hn
    exact hkeys.typeName

theorem Corresponds.openStruct (options : Options) (h : x.Corresponds l key l' key')
    (hn : Reference.nodeAt? documents l = some n) (hn' : Reference.nodeAt? x.result l' = some n')
    (hs : x.Carried s s') (hname : s.registry.nameOf? l = none) :
    (∃ e e', openStruct ⟨documents, options⟩ n l key s = (.error e, s) ∧
      openStruct ⟨x.result, options⟩ n' l' key' s' = (.error e', s')) ∨
    ∃ name origin origin' events events',
      openStruct ⟨documents, options⟩ n l key s =
        (.ok name, s.opened (s.registry.record ⟨l, name, origin⟩) events) ∧
      openStruct ⟨x.result, options⟩ n' l' key' s' =
        (.ok name, s'.opened (s'.registry.record ⟨l', name, origin'⟩) events') := by
  have hstem : (Job.mk x.result options).stem? l'.document =
      (Job.mk documents options).stem? l.document := by
    rw [h.moved.document]
    exact (sameNames_result options).stem? l.document
  obtain ⟨e, e', hd, hd'⟩ | ⟨name, events, events', hd, hd'⟩ :=
    hs.declare h.moved hname (Naming.typeName n.head.title key)
      ((Job.mk documents options).origin l) ((Job.mk x.result options).origin l')
      ((Job.mk documents options).stem? l.document)
  · rw [← hstem, ← h.typeName hn hn'] at hd'
    exact .inl ⟨e, e', openStruct_of_error hd, openStruct_of_error hd'⟩
  · rw [← hstem, ← h.typeName hn hn'] at hd'
    exact .inr ⟨name, _, _, events, events', openStruct_of_ok hd, openStruct_of_ok hd'⟩

end

/-- The walks go in step, except from the struct with the property if it has to be built. -/
theorem simulates (options : Options) {D : Location → String → Location → String → Prop}
    {C : Synthesis → Prop} (hD : ∀ {l key l' key'}, D l key l' key' → x.Corresponds l key l' key')
    (hC : ∀ {s t}, x.Keeps s t → C s → C t)
    (hhost : ∀ {l key l' key' s}, D l key l' key' → C s → s.registry.nameOf? l = none →
      l ≠ x.hostAt) :
    Simulates ⟨documents, options⟩ ⟨x.result, options⟩ D x.Corresponds
      (fun l l' => x.Apart l ∧ l' = l) (fun s s' => x.Carried s s' ∧ C s) (fun _ _ => True) where
  recursive := rfl
  alike := by
    intro l key l' key' n n' h hn hn'
    exact (h.moved.alike hn hn').2
  corresponds := hD
  items := by
    intro l key l' key' n m h hn hk
    exact (hD h).step hn (by simp [Node.isStruct, hk]) (.inl rfl) (Node.items?_of_kind? hk)
  value := by
    intro l key l' key' n m h hn hk
    exact (hD h).step hn (by simp [Node.isStruct, hk]) (.inr rfl) (Node.extra?_of_kind?_map hk)
  slot := by
    intro l key l' key' n s s' name slot h hn _ hs hname hm
    exact (hD h).slot hn hm fun hl => absurd hl (hhost h hs.2 hname)
  target := by
    intro l key l' key' n n' text text' target h hn hn' hk hk' ht
    obtain ⟨target₁, target', ht₁, ht', hloc, hapart⟩ | ⟨e, e', he, -⟩ :=
      (hD h).resolve_cases hn hn' hk hk'
    · cases ht₁.symm.trans ht
      refine ⟨target', ht', ⟨hapart, hloc⟩, ?_⟩
      rw [hloc, Job.targetKey_of_sameNames (sameNames_result options) rfl]
      exact .apart hapart
    · cases he.symm.trans ht
  unresolved := by
    intro l key l' key' n n' text text' e h hn hn' hk hk' ht
    obtain ⟨target, target', ht₁, -⟩ | ⟨e₁, e', he, he'⟩ := (hD h).resolve_cases hn hn' hk hk'
    · cases ht₁.symm.trans ht
    · exact ⟨e', he', trivial⟩
  note := fun events events' h => ⟨h.1.note events events', hC (keeps_note events) h.2⟩
  resolvedType? := by
    rintro s s' _ l h ⟨hl, rfl⟩
    exact h.1.resolved l hl
  reentry := by
    rintro s s' _ l recursive h ⟨hl, rfl⟩
    exact h.1.reentry hl recursive
  cycle := fun _ _ => trivial
  enter := by
    rintro s s' _ l h ⟨hl, rfl⟩
    exact ⟨h.1.enter l, hC (keeps_enter hl) h.2⟩
  leave := by
    rintro s s' t t' _ l τ h ⟨hl, rfl⟩ ht hin hin'
    exact ⟨h.1.leave ht.1 l τ hin hin', hC (keeps_leave hl τ hin) ht.2⟩
  shape := fun _ _ => trivial
  nameOf? := fun h hs => hs.1.nameOf? (hD h).moved
  isDefined := fun h hs => hs.1.isDefined (hD h).moved
  reopened := fun _ => trivial
  opened := by
    intro l key l' key' n n' s s' h hn hst hn' hs hname
    obtain ⟨e, e', hopen, hopen'⟩ | ⟨name, origin, origin', events, events', hopen, hopen'⟩ :=
      (hD h).openStruct options hn hn' hs.1 hname
    · rw [hopen, hopen']
      exact .error trivial
    · rw [hopen, hopen']
      exact .ok rfl ⟨hs.1.opened (hD h).moved _ _ _ _ _, hC (keeps_opened _ _ _) hs.2⟩
  closed := by
    intro l key l' key' s s' name description fields h hs
    exact ⟨hs.1.closed ⟨rfl, rfl, rfl, fun _ => rfl⟩, hC (keeps_closed _) hs.2⟩

section
variable {k k' : Nat} {name key : String} {n n' : Node}

theorem walksAgree_of_name (options : Options) {C : Synthesis → Prop}
    (hC : ∀ {s t}, x.Keeps s t → C s → C t)
    (hname : ∀ {s}, C s → s.registry.nameOf? x.hostAt = some name) (hk : k ≤ k') :
    WalksAgree ⟨documents, options⟩ ⟨x.result, options⟩ x.Corresponds
      (fun s s' => x.Carried s s' ∧ C s) (fun _ _ => True) k k' := by
  apply Simulates.walksAgree (simulates options id hC ?_) hk
  rintro l key l' key' s - hs hnone rfl
  cases (hname hs).symm.trans hnone

/-- The reference leads into the definition, where the walk goes on as it does in the copy. -/
theorem property_agree (options : Options) (hk : k ≤ k') (hs : x.Carried s s')
    (hname : s.registry.nameOf? x.hostAt = some name) (hu : x.Untouched s) :
    Agree (fun t t' => x.Carried t t' ∧ t.registry.nameOf? x.hostAt = some name) (fun _ _ => True)
      Eq (walk ⟨documents, options⟩ k (.mk { reference := some x.text } []) x.property x.key s)
      (walk ⟨x.result, options⟩ k' x.copy.node x.property x.key s') := by
  cases k with
  | zero => exact .tooDeep
  | succ k =>
    have hkind : (Node.mk { reference := some x.text } []).kind? = some (.reference x.text) := rfl
    have hentry : s.reentry options.recursive x.target = .enter := by
      simp only [reentry, hu.inFlight]
    have hmarked : x.Carried (s.marked ⟨documents, options⟩ x.text x.property x.target) s' :=
      ⟨hs.policy, hs.declarations, hs.structs, hs.openStructs, hs.inFlight, hs.resolved⟩
    have hcopy := x.nodeAt?_copy []
    rw [Location.below_nil] at hcopy
    -- The struct has its name by now, so no walk of the definition would build it again.
    have hagree := walksAgree_of_name options (fun hk h => hk.nameOf? h) id
      (by omega : k ≤ k') _ _ _ _ _ _ _ _ (x.corresponds_property options)
      (Reference.nodeAt?_of_resolve x.leads) hcopy ⟨hmarked.enter_target, hname⟩
    generalize hp : walk _ k _ _ _ _ = p at hagree
    generalize walk _ k' _ _ _ _ = q at hagree ⊢
    cases hagree with
    | ok ha ht =>
      subst ha
      rw [walk_succ_iff.mpr (.entered hkind x.leads hu.resolvedType? hentry hp)]
      exact .ok rfl ⟨ht.1.leave_target _ (walk_after hp).grown.inFlight, ht.2⟩
    | error =>
      rw [walk_succ_iff.mpr (.lost hkind x.leads hu.resolvedType? hentry hp)]
      exact .error trivial
    | tooDeep =>
      rw [walk_succ_iff.mpr (.lost hkind x.leads hu.resolvedType? hentry hp)]
      exact .tooDeep

theorem nodeAt?_host (options : Options) : ∃ n,
    (Job.mk documents options).nodeAt? x.hostAt = some n ∧ n.isStruct ∧
    n.child? (.property x.key) = some (.mk { reference := some x.text } []) ∧
    (Job.mk x.result options).nodeAt? x.hostAt =
      some (n.setChild (.property x.key) x.copy.node) := by
  obtain ⟨n, hn, hst⟩ := x.isStruct
  have hhost : (Job.mk documents options).nodeAt? x.hostAt = some n :=
    (Reference.nodeAt?_of_document x.found).trans hn
  have hchild := (Job.nodeAt?_join hhost (.property x.key)).symm.trans x.nodeAt?_property
  have hgraft : (x.document.root.node.graft (x.host ++ []) (.property x.key) x.copy.node).lookup
      x.host = _ := Node.lookup_graft_append
  rw [List.append_nil, show x.document.root.node.lookup x.host = some n from hn] at hgraft
  exact ⟨n, hhost, hst, hchild, (Reference.nodeAt?_set x.found).trans hgraft⟩

section
variable {options : Options} (hn : (Job.mk documents options).nodeAt? x.hostAt = some n)
  (hn' : (Job.mk x.result options).nodeAt? x.hostAt = some n') (hk : k ≤ k')

include hn hn' hk

theorem slot_agree {C : Synthesis → Prop} {slot : Slot} (hC : ∀ {s t}, x.Keeps s t → C s → C t)
    (hname : ∀ {s}, C s → s.registry.nameOf? x.hostAt = some name)
    (hm : slot ∈ n.slots name ∧ slot ∈ n'.slots name) (hne : slot.segment ≠ .property x.key) :
    slot.Matches slot ∧ ∀ s s', x.Carried s s' ∧ C s →
      Agree (fun t t' => x.Carried t t' ∧ C t) (fun _ _ => True) Eq
        (walk ⟨documents, options⟩ k slot.node (x.hostAt.join slot.segment) slot.key s)
        (walk ⟨x.result, options⟩ k' slot.node (x.hostAt.join slot.segment) slot.key s') := by
  have hhost : x.Corresponds x.hostAt "" x.hostAt "" := .apart x.apart_host
  refine ⟨⟨rfl, rfl⟩, fun s s' hs => ?_⟩
  exact walksAgree_of_name options hC hname hk _ _ _ _ _ _ _ _ (hhost.slot hn hm.1 fun _ => hne)
    (Job.nodeAt?_slot hn hm.1) (Job.nodeAt?_slot hn' hm.2) hs

/-- The slots of the struct are filled alike. Up to the property the definition is untouched, and
after it the field of the property may be described otherwise. -/
theorem fill_host_agree
    (hchild : n.child? (.property x.key) = some (.mk { reference := some x.text } []))
    (hset : n' = n.setChild (.property x.key) x.copy.node) (hs : x.Carried s s')
    (hname : s.registry.nameOf? x.hostAt = some name) (hu : x.Untouched s) :
    Agree (fun t t' => x.Carried t t' ∧ t.registry.nameOf? x.hostAt = some name) (fun _ _ => True)
      (fun f f' => Struct.undescribed x.key f' = Struct.undescribed x.key f)
      (fill (walk ⟨documents, options⟩ k) x.hostAt (n.slots name) ∅ s)
      (fill (walk ⟨x.result, options⟩ k') x.hostAt (n'.slots name) ∅ s') := by
  obtain ⟨before, after, hslots, hslots', hne⟩ :=
    Node.slots_setChild (Job.canonical_nodeAt? hn) hchild x.copy.node name
  rw [← hset] at hslots'
  have hothers : ∀ slot ∈ before ++ after, slot ∈ n.slots name ∧ slot ∈ n'.slots name := by
    rw [hslots, hslots']
    intro slot hm
    simp only [List.mem_append, List.mem_cons] at hm ⊢
    tauto
  rw [hslots, hslots', fill_append, fill_append]
  -- That the definition is untouched has to last until the property, and is given up there.
  refine Agree.bind (M := fun t t' => x.Carried t t' ∧
    t.registry.nameOf? x.hostAt = some name ∧ x.Untouched t)
    (fill_agree (Slot.undescribed_add x.key) (List.forall₂_same.mpr ?_) rfl ⟨hs, hname, hu⟩) ?_
  · intro slot hm
    have hmem := List.mem_append_left after hm
    exact slot_agree hn hn' hk (fun h hC => ⟨h.nameOf? hC.1, h.untouched hC.2⟩) And.left
      (hothers slot hmem) (hne slot hmem)
  intro fields fields' t t' hfields ht
  rw [fill, fill]
  apply Agree.bind (property_agree options hk ht.1 ht.2.1 ht.2.2)
  rintro τ _ u u' rfl hu
  refine fill_agree (Slot.undescribed_add x.key) (List.forall₂_same.mpr ?_) ?_ hu
  · intro slot hm
    have hmem := List.mem_append_right before hm
    exact slot_agree hn hn' hk (fun h => h.nameOf?) id (hothers slot hmem) (hne slot hmem)
  · exact (Slot.undescribed_add x.key _ _ _ τ hfields).trans
      (Slot.undescribed_add_property x.key fields τ)

theorem host_agree (hs : x.Carried s s' ∧ x.Poised s) :
    Agree (fun t t' => x.Carried t t' ∧ x.Poised t) (fun _ _ => True) Eq
      (walk ⟨documents, options⟩ (k + 1) n x.hostAt key s)
      (walk ⟨x.result, options⟩ (k' + 1) n' x.hostAt key s') := by
  have hhost : x.Corresponds x.hostAt key x.hostAt key := .apart x.apart_host
  cases hname : s.registry.nameOf? x.hostAt with
  | some name =>
    have hagree := walksAgree_of_name options (fun h => h.nameOf?) id (Nat.succ_le_succ hk)
      _ _ _ _ _ _ _ _ hhost hn hn' ⟨hs.1, hname⟩
    exact hagree.mono fun _ _ t t' _ _ ha ht => ⟨ha, ht.1, .inl ⟨name, ht.2⟩⟩
  | none =>
    have hu : x.Untouched s := hs.2.resolve_left (by simp [hname])
    have hname' := (hs.1.nameOf? hhost.moved).trans hname
    obtain ⟨m, hm, hst, hchild, hm'⟩ := x.nodeAt?_host options
    obtain rfl := Option.some.inj (hm.symm.trans hn)
    obtain ⟨hhead, halike⟩ := hhost.moved.alike hn hn'
    rw [walk, walk, step_of_isStruct hst, step_of_isStruct (halike.isStruct.trans hst),
      struct_of_unnamed hname, struct_of_unnamed hname', hhead]
    obtain ⟨e, e', hopen, hopen'⟩ | ⟨name, origin, origin', events, events', hopen, hopen'⟩ :=
      hhost.openStruct options hn hn' hs.1 hname
    · rw [Synth.bind_error hopen, Synth.bind_error hopen']
      exact .error trivial
    · rw [Synth.bind_ok hopen, Synth.bind_ok hopen']
      have hnamed : (s.registry.record ⟨x.hostAt, name, origin⟩).nameOf? x.hostAt = some name := by
        simp [Registry.nameOf?_record, hname]
      apply Agree.bind (fill_host_agree hn hn' hk hchild (Option.some.inj (hn'.symm.trans hm'))
        (hs.1.opened hhost.moved name origin origin' events events') hnamed
        ((keeps_opened name origin events).untouched hu))
      intro fields fields' t t' hfields ht
      have hlike : Struct.Like x.key (t.registry.nameOf? x.hostAt = some name)
          ⟨name, (Job.mk documents options).origin x.hostAt, m.head.description, fields⟩
          ⟨name, (Job.mk x.result options).origin x.hostAt, m.head.description, fields'⟩ :=
        ⟨rfl, rfl, hfields, fun h => absurd ht.2 h⟩
      exact .ok rfl ⟨ht.1.closed hlike, .inl ⟨name, ht.2⟩⟩

end

theorem walksAgree (options : Options) (hk : k ≤ k') :
    WalksAgree ⟨documents, options⟩ ⟨x.result, options⟩ x.Corresponds
      (fun s s' => x.Carried s s' ∧ x.Poised s) (fun _ _ => True) k k' := by
  induction k generalizing k' with
  | zero =>
    intro l key l' key' n n' s s' _ _ _ _
    exact .tooDeep
  | succ k ih =>
    intro l key l' key' n n' s s' h hn hn' hs
    cases k' with
    | zero => omega
    | succ k' =>
      -- The struct with the property is the one node with a slot that does not correspond.
      by_cases hl : l = x.hostAt
      · cases h with
        | apart => exact hl ▸ host_agree (hl ▸ hn) (hl ▸ hn') (by omega) hs
        | inside => exact absurd (hl ▸ Location.covers_below) x.apart_host.2
      · have hsim := simulates options
          (D := fun l key l' key' => x.Corresponds l key l' key' ∧ l ≠ x.hostAt)
          And.left Keeps.poised (fun h _ _ => h.2)
        exact hsim.walk_succ (ih (by omega)) ⟨h, hl⟩ hn hn' hs

end

end Inlining

/-- A copy of a definition may stand in the place of a reference to it: the documents compile if and
only if they did before, and to the same structs, except for origins and for the description of the
property. -/
theorem compile_inlined (options : Options) {documents : List Document} (x : Inlining documents) :
    ((∃ m, (compile options documents).result = .ok m) ↔
      ∃ m, (compile options x.result).result = .ok m) ∧
    ∀ m m', (compile options documents).result = .ok m →
      (compile options x.result).result = .ok m' →
      let owner := (synthesizeRoots ⟨documents, options⟩
        (Synthesis.start options)).2.registry.nameOf? x.hostAt
      m'.erase owner x.key = m.erase owner x.key := by
  have hnames := x.sameNames_result options
  have hroot : ∀ i, x.Corresponds (.root i) ((Job.mk documents options).rootKey i) (.root i)
      ((Job.mk x.result options).rootKey i) := by
    intro i
    rw [Job.rootKey_of_sameNames hnames rfl]
    exact .apart (x.apart_root i)
  obtain ⟨s, s', hs, hrun, hm, hm'⟩ | ⟨e, e', -, he, he'⟩ := compile_agree
    (fun k k' => x.walksAgree options) hroot hnames.length_eq (hnames.repeatedId? _)
    (fun _ => trivial) ⟨Inlining.Carried.start options, .inr ⟨rfl, rfl⟩⟩
  · refine ⟨⟨fun _ => ⟨_, hm'⟩, fun _ => ⟨_, hm⟩⟩, ?_⟩
    intro m m' h h'
    cases hm.symm.trans h
    cases hm'.symm.trans h'
    rw [hrun]
    exact StructMap.erase_eq_of_like hs.1.structs
  · refine ⟨⟨?_, ?_⟩, ?_⟩
    · rintro ⟨m, h⟩
      cases he.symm.trans h
    · rintro ⟨m, h⟩
      cases he'.symm.trans h
    · intro m m' h
      cases he.symm.trans h

namespace Sample

def payer : Written where
  description := some "Who pays."
  type := some (.single "object")
  properties := [("name", named "string")]

def invoice : Written where
  title := some "Invoice"
  type := some (.single "object")
  properties := [("payer", referring "#/definitions/payer")]
  definitions := [("payer", payer)]

def invoices : List Document := [⟨"invoice", [], invoice.schema⟩]

def payerInlining : Inlining invoices where
  index := 0
  document := ⟨"invoice", [], invoice.schema⟩
  host := []
  key := "payer"
  text := "#/definitions/payer"
  scope := []
  name := "payer"
  copy := payer.schema
  found := rfl
  isStruct := ⟨_, rfl, by decide +kernel⟩
  bare := by decide +kernel
  leads := by
    have haim : Reference.aim invoices "#/definitions/payer" 0 =
        .ok ⟨0, [.definition "payer"]⟩ := by decide +kernel
    have hnode : Reference.nodeAt? invoices ⟨0, [.definition "payer"]⟩ = some payer.node := by
      decide +kernel
    simp only [Reference.resolve_eq_aim, haim, hnode]
    rfl
  plain := by
    have hall : ∀ r ∈ payer.node.pointers, ∀ n ∈ payer.node.lookup r, n.head.reference = none := by
      decide +kernel
    intro r n hn
    exact hall r (Node.mem_pointers hn) n hn
  alone := by
    have hall : ∀ source ∈ Document.locations 0 invoices,
        ∀ l ∈ Reference.pointee? invoices source, source ≠ ⟨0, [.property "payer"]⟩ →
          ¬ Location.Covers ⟨0, [.property "payer"]⟩ l ∧
            ¬ Location.Covers ⟨0, [.definition "payer"]⟩ l := by
      decide +kernel
    intro source l hne hl
    exact hall source (Reference.mem_locations_of_pointee? hl) l hl hne
  named := .inl rfl

theorem invoices_inlined : ∃ m m', (compile {} invoices).result = .ok m ∧
    (compile {} payerInlining.result).result = .ok m' ∧
    m'.erase (some "Invoice") "payer" = m.erase (some "Invoice") "payer" := by
  have hkeys : (compile {} invoices).result.toOption.map Dict.keys = some ["Invoice", "Payer"] := by
    decide +kernel
  have howner : (synthesizeRoots ⟨invoices, {}⟩
      (Synthesis.start {})).2.registry.nameOf? payerInlining.hostAt = some "Invoice" := by
    decide +kernel
  obtain ⟨m, hm, -⟩ := exists_ok_of_keys hkeys
  obtain ⟨hok, herase⟩ := compile_inlined {} payerInlining
  obtain ⟨m', hm'⟩ := hok.mp ⟨m, hm⟩
  refine ⟨m, m', hm, hm', ?_⟩
  rw [← howner]
  exact herase m m' hm hm'

end Sample

end SchemaStructs
