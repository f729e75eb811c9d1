import SchemaStructs.Proofs.Registry
import SchemaStructs.Proofs.Step

namespace SchemaStructs

namespace Registry

inductive Request where
  | declare (l : Location) (base origin : String) (qualifier : Option String)
  | define (struct : Struct)

def after (r : Registry) : Request → Registry
  | .declare l base origin qualifier =>
    match r.declare l base origin qualifier with
    | .ok (_, r', _) => r'
    | .error _ => r
  | .define struct => (r.define struct).1

def afterAll (r : Registry) (requests : List Request) : Registry := requests.foldl after r

/-- What no request can change. Structs are not among it: one may be stored under any name, also
in the place of another. -/
structure Preserves (r r' : Registry) : Prop where
  policy : r'.policy = r.policy
  declarations : r.declarations <+: r'.declarations
  oneToOne : r.OneToOne → r'.OneToOne

variable {r r' r'' : Registry} {l : Location} {base origin name : String}
  {qualifier : Option String} {events : List Event}

theorem Preserves.refl (r : Registry) : r.Preserves r := ⟨rfl, List.prefix_refl _, id⟩

theorem Preserves.trans (h : r.Preserves r') (h' : r'.Preserves r'') : r.Preserves r'' :=
  ⟨h'.policy.trans h.policy, h.declarations.trans h'.declarations, h'.oneToOne ∘ h.oneToOne⟩

theorem declare_ok_cases (h : r.declare l base origin qualifier = .ok (name, r', events)) :
    r.nameOf? l = some name ∧ r' = r ∨
      r.nameOf? l = none ∧ name ∉ r.names ∧ r' = r.record ⟨l, name, origin⟩ := by
  cases hl : r.nameOf? l with
  | some old =>
    rw [declare_of_nameOf? hl] at h
    cases h
    exact .inl ⟨rfl, rfl⟩
  | none =>
    obtain ⟨hrecord, hfree, -⟩ := declare_ok hl h
    exact .inr ⟨rfl, hfree, hrecord⟩

theorem preserves_declare (h : r.declare l base origin qualifier = .ok (name, r', events)) :
    r.Preserves r' := by
  obtain ⟨-, rfl⟩ | ⟨hl, hfree, rfl⟩ := declare_ok_cases h
  · exact .refl r'
  · exact ⟨rfl, List.prefix_append _ _, fun hr => hr.record hl hfree⟩

theorem nameOf?_of_declare (h : r.declare l base origin qualifier = .ok (name, r', events)) :
    r'.nameOf? l = some name := by
  obtain ⟨hl, rfl⟩ | ⟨hl, -, rfl⟩ := declare_ok_cases h
  · exact hl
  · simp [nameOf?_record, hl]

theorem preserves_after (r : Registry) (request : Request) : r.Preserves (r.after request) := by
  cases request with
  | define struct => exact ⟨rfl, List.prefix_refl _, fun hr => ⟨hr.locations, hr.names⟩⟩
  | declare l base origin qualifier =>
    rw [after]
    split
    next h => exact preserves_declare h
    next => exact .refl r

theorem preserves_afterAll (r : Registry) (requests : List Request) :
    r.Preserves (r.afterAll requests) := by
  induction requests generalizing r with
  | nil => exact .refl r
  | cons request rest ih => exact (r.preserves_after request).trans (ih _)

theorem oneToOne_empty (policy : CollisionPolicy) : ({ policy } : Registry).OneToOne :=
  ⟨List.nodup_nil, List.nodup_nil⟩

/-- A name is refused only where names may not collide, to a node that has none, and because
another node has it. -/
theorem declare_eq_error_iff {e : CompileError} :
    r.declare l base origin qualifier = .error e ↔
      r.policy = .fail ∧ r.nameOf? l = none ∧ ∃ owner, r.owner? base = some owner ∧
        owner.location ≠ l ∧ e = .nameCollision base owner.origin origin := by
  constructor
  · intro h
    obtain ⟨hp, owner, ho, rfl⟩ := declare_error h
    cases hl : r.nameOf? l with
    | some name =>
      rw [declare_of_nameOf? hl] at h
      cases h
    | none =>
      have hother := nameOf?_eq_none_iff.mp hl owner (mem_of_owner? ho).1
      exact ⟨hp, rfl, owner, ho, hother, rfl⟩
  · rintro ⟨hp, hl, owner, ho, -, rfl⟩
    exact declare_of_owner_fail hl ho hp

theorem exists_declare_ok (hp : r.policy = .disambiguate) :
    ∃ name r' events, r.declare l base origin qualifier = .ok (name, r', events) := by
  cases hd : r.declare l base origin qualifier with
  | ok named => exact ⟨named.1, named.2.1, named.2.2, rfl⟩
  | error e => cases hp.symm.trans (declare_error hd).1

end Registry

theorem Synthesis.eq_of_openStruct_error {job : Job} {node : Node} {l : Location} {key : String}
    {s s' : Synthesis} {e : CompileError} (h : openStruct job node l key s = (.error e, s')) :
    s' = s := by
  cases hd : s.registry.declare l (Naming.typeName node.head.title key) (job.origin l)
      (job.stem? l.document) with
  | error e' =>
    rw [openStruct_of_error hd] at h
    exact (Prod.mk.inj h).2.symm
  | ok named =>
    rw [openStruct_of_ok hd] at h
    cases h

/-- What holds after any requests, whatever their arguments. Nodes and names can be told from each
other both ways. A node that has a name keeps it and gets no other. A request for a name fails only
for a node without one, where names may not collide and another node has the name, and it changes
nothing then. Storing a struct changes no names. -/
theorem Registry.names_settled (policy : CollisionPolicy) (requests : List Request) :
    let r := ({ policy } : Registry).afterAll requests
    (∀ l name, r.nameOf? l = some name ↔ (r.owner? name).map Declaration.location = some l) ∧
      (∀ l l' name, r.nameOf? l = some name → r.nameOf? l' = some name → l = l') ∧
      (∀ l name, r.nameOf? l = some name → ∀ later base origin qualifier,
        (r.afterAll later).nameOf? l = some name ∧
          (r.afterAll later).declare l base origin qualifier = .ok (name, r.afterAll later, [])) ∧
      (∀ l base origin qualifier name r' events,
        r.declare l base origin qualifier = .ok (name, r', events) → r'.nameOf? l = some name) ∧
      (∀ l base origin qualifier e, r.declare l base origin qualifier = .error e ↔
        policy = .fail ∧ r.nameOf? l = none ∧ ∃ owner, r.owner? base = some owner ∧
          owner.location ≠ l ∧ e = .nameCollision base owner.origin origin) ∧
      (∀ l base origin qualifier e, r.declare l base origin qualifier = .error e →
        r.after (.declare l base origin qualifier) = r) ∧
      (∀ job node l key s e s', Synthesis.openStruct job node l key s = (.error e, s') → s' = s) ∧
      (policy = .disambiguate → ∀ l base origin qualifier, ∃ name r' events,
        r.declare l base origin qualifier = .ok (name, r', events)) ∧
      ∀ struct, (r.define struct).1.nameOf? = r.nameOf? ∧
        (r.define struct).1.owner? = r.owner? := by
  intro r
  have hr : ({ policy } : Registry).Preserves r := preserves_afterAll _ requests
  have hone : r.OneToOne := hr.oneToOne (oneToOne_empty policy)
  have hpolicy : r.policy = policy := hr.policy
  refine ⟨fun _ _ => hone.nameOf?_eq_some_iff, fun _ _ _ => hone.location_unique, ?_,
    fun _ _ _ _ _ _ _ => nameOf?_of_declare, ?_, ?_,
    fun _ _ _ _ _ _ _ => Synthesis.eq_of_openStruct_error, ?_, fun _ => ⟨rfl, rfl⟩⟩
  · intro l name hname later base origin qualifier
    have hlater := nameOf?_of_prefix (r.preserves_afterAll later).declarations hname
    exact ⟨hlater, declare_of_nameOf? hlater⟩
  · intro l base origin qualifier e
    rw [declare_eq_error_iff, hpolicy]
  · intro l base origin qualifier e h
    simp only [after, h]
  · intro hp l base origin qualifier
    exact exists_declare_ok (hpolicy.trans hp)

theorem Registry.addresses_settled :
    let l (key : String) := (Location.root 0).join (.definition key)
    let r := ({} : Registry).afterAll
      [.declare (l "a") "Address2" "a" none, .declare (l "b") "Address" "b" none,
        .declare (l "c") "Address" "c" none]
    r.names = ["Address2", "Address", "Address3"] ∧
      (r.owner? "Address3").map Declaration.location = some (l "c") ∧
      r.declare (l "c") "Other" "c" none = .ok ("Address3", r, []) := by
  intro l r
  have hnames : r.names = ["Address2", "Address", "Address3"] := by decide +kernel
  have hname : r.nameOf? (l "c") = some "Address3" := by decide +kernel
  obtain ⟨hinverse, -, hkept, -⟩ := names_settled .disambiguate
    [.declare (l "a") "Address2" "a" none, .declare (l "b") "Address" "b" none,
      .declare (l "c") "Address" "c" none]
  exact ⟨hnames, (hinverse _ _).mp hname, (hkept _ _ hname [] "Other" "c" none).2⟩

end SchemaStructs
