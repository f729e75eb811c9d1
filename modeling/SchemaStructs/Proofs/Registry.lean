import SchemaStructs.Proofs.Dict
import SchemaStructs.Proofs.Naming
import SchemaStructs.Registry

namespace SchemaStructs

def Event.storedName? : Event → Option String
  | registered name _ _ => some name
  | _ => none

namespace Registry

variable {r r' r'' : Registry} {l : Location} {d : Declaration} {base origin name : String}
  {qualifier : Option String} {events : List Event}

theorem mem_names : name ∈ r.names ↔ ∃ d ∈ r.declarations, d.name = name := List.mem_map

theorem owner?_eq_none_iff : r.owner? name = none ↔ name ∉ r.names := by
  simp [owner?, mem_names]

theorem mem_of_owner? (h : r.owner? name = some d) : d ∈ r.declarations ∧ d.name = name :=
  ⟨List.mem_of_find?_eq_some h, by simpa using List.find?_some h⟩

theorem nameOf?_eq_none_iff : r.nameOf? l = none ↔ ∀ d ∈ r.declarations, d.location ≠ l := by
  simp [nameOf?]

theorem exists_of_nameOf? (h : r.nameOf? l = some name) :
    ∃ d ∈ r.declarations, d.location = l ∧ d.name = name := by
  obtain ⟨d, hd, hname⟩ := Option.map_eq_some_iff.mp h
  exact ⟨d, List.mem_of_find?_eq_some hd, by simpa using List.find?_some hd, hname⟩

theorem nameOf?_record : (r.record d).nameOf? l =
    (r.nameOf? l).or (if d.location = l then some d.name else none) := by
  unfold nameOf? record
  rw [List.find?_append]
  cases h : r.declarations.find? fun d => d.location = l with
  | some d' => simp
  | none => by_cases hd : d.location = l <;> simp [hd]

theorem disambiguate_not_mem (owner : Declaration) :
    r.disambiguate owner l base qualifier ∉ r.names := by
  unfold disambiguate
  dsimp only
  split
  next h => exact owner?_eq_none_iff.mp (Option.isNone_iff_eq_none.mp h.2.2)
  next => exact Naming.renumbered_not_mem _ _

theorem declare_of_nameOf? (h : r.nameOf? l = some name) :
    r.declare l base origin qualifier = .ok (name, r, []) := by
  simp [declare, h]

theorem declare_of_free (h : r.nameOf? l = none) (ho : r.owner? base = none) :
    r.declare l base origin qualifier = .ok (base, r.record ⟨l, base, origin⟩, []) := by
  simp [declare, h, ho]

theorem declare_eq_disambiguate {owner : Declaration} (h : r.nameOf? l = none)
    (ho : r.owner? base = some owner) (hp : r.policy = .disambiguate) :
    r.declare l base origin qualifier =
      .ok (r.disambiguate owner l base qualifier,
        r.record ⟨l, r.disambiguate owner l base qualifier, origin⟩,
        [.renamed base owner.origin origin (r.disambiguate owner l base qualifier)]) := by
  simp [declare, h, ho, hp]

theorem declare_of_owner {owner : Declaration} (origin : String) (qualifier : Option String)
    (h : r.nameOf? l = none) (ho : r.owner? base = some owner) (hp : r.policy = .disambiguate) :
    ∃ name, r.declare l base origin qualifier = .ok (name, r.record ⟨l, name, origin⟩,
      [.renamed base owner.origin origin name]) :=
  ⟨_, declare_eq_disambiguate h ho hp⟩

theorem declare_of_owner_fail {owner : Declaration} (h : r.nameOf? l = none)
    (ho : r.owner? base = some owner) (hp : r.policy = .fail) :
    r.declare l base origin qualifier = .error (.nameCollision base owner.origin origin) := by
  simp [declare, h, ho, hp]

theorem declare_ok (hl : r.nameOf? l = none)
    (h : r.declare l base origin qualifier = .ok (name, r', events)) :
    r' = r.record ⟨l, name, origin⟩ ∧ name ∉ r.names ∧
      events.filterMap Event.storedName? = [] := by
  simp only [declare, hl] at h
  split at h
  next ho =>
    cases h
    exact ⟨rfl, owner?_eq_none_iff.mp ho, rfl⟩
  next owner _ =>
    split at h
    next => cases h
    next =>
      cases h
      exact ⟨rfl, disambiguate_not_mem owner, rfl⟩

theorem declare_error {e : CompileError} (h : r.declare l base origin qualifier = .error e) :
    r.policy = .fail ∧ ∃ owner, r.owner? base = some owner ∧
      e = .nameCollision base owner.origin origin := by
  unfold declare at h
  split at h
  next => cases h
  next =>
  split at h
  next => cases h
  next owner ho =>
  split at h
  next hp => exact ⟨hp, owner, ho, (Except.error.inj h).symm⟩
  next => cases h

structure OneToOne (r : Registry) : Prop where
  locations : (r.declarations.map Declaration.location).Nodup
  names : r.names.Nodup

structure Consistent (r : Registry) : Prop where
  locations : (r.declarations.map Declaration.location).Nodup
  names : r.names.Nodup
  structs : ∀ name ∈ r.structs.keys, name ∈ r.names

/-- What one registry knows, a later one knows too. No struct comes under a name given before. -/
structure Grows (r r' : Registry) : Prop where
  policy : r'.policy = r.policy
  declarations : r.declarations <+: r'.declarations
  structs : ∀ name ∈ r.names, r'.structs.get? name = r.structs.get? name

def Completes (r r' : Registry) : Prop :=
  ∀ d ∈ r'.declarations, d ∈ r.declarations ∨ ∃ struct, r'.structs.get? d.name = some struct

theorem Grows.refl (r : Registry) : r.Grows r := ⟨rfl, List.prefix_refl _, fun _ _ => rfl⟩

theorem Grows.names_subset (h : r.Grows r') (hname : name ∈ r.names) : name ∈ r'.names := by
  obtain ⟨d, hd, rfl⟩ := mem_names.mp hname
  exact mem_names.mpr ⟨d, h.declarations.subset hd, rfl⟩

theorem Grows.trans (h : r.Grows r') (h' : r'.Grows r'') : r.Grows r'' := by
  refine ⟨h'.policy.trans h.policy, h.declarations.trans h'.declarations, ?_⟩
  intro name hname
  exact (h'.structs name (h.names_subset hname)).trans (h.structs name hname)

theorem nameOf?_of_prefix (h : r.declarations <+: r'.declarations)
    (hname : r.nameOf? l = some name) : r'.nameOf? l = some name := by
  obtain ⟨d, hd, hn⟩ := Option.map_eq_some_iff.mp hname
  have hd' := List.IsPrefix.find?_eq_some h hd
  exact Option.map_eq_some_iff.mpr ⟨d, hd', hn⟩

theorem Grows.nameOf? (h : r.Grows r') (hname : r.nameOf? l = some name) :
    r'.nameOf? l = some name :=
  nameOf?_of_prefix h.declarations hname

theorem grows_record : r.Grows (r.record d) :=
  ⟨rfl, List.prefix_append _ _, fun _ _ => rfl⟩

theorem Grows.define (h : r.Grows r') {struct : Struct} (hname : struct.name ∉ r.names) :
    r.Grows (r'.define struct).1 := by
  refine ⟨h.policy, h.declarations, ?_⟩
  intro name hn
  have hne : name ≠ struct.name := fun he => hname (he ▸ hn)
  exact (Dict.get?_insert_of_ne _ hne _).trans (h.structs name hn)

theorem Completes.refl (r : Registry) : r.Completes r := fun _ hd => .inl hd

theorem Completes.trans (h : r.Completes r') (h' : r'.Completes r'') (hg : r'.Grows r'') :
    r.Completes r'' := by
  intro d hd
  obtain hd | hd := h' d hd
  · obtain hd' | ⟨struct, hs⟩ := h d hd
    · exact .inl hd'
    · refine .inr ⟨struct, ?_⟩
      rw [hg.structs _ (mem_names.mpr ⟨d, hd, rfl⟩)]
      exact hs
  · exact .inr hd

theorem Completes.define {struct : Struct} (h : (r.record d).Completes r')
    (hname : struct.name = d.name) : r.Completes (r'.define struct).1 := by
  intro d' hd
  by_cases he : d'.name = struct.name
  · exact .inr ⟨struct, by simp [Registry.define, he]⟩
  · obtain hd | ⟨struct', hs⟩ := h d' hd
    · obtain hd | hd := List.mem_append.mp hd
      · exact .inl hd
      · obtain rfl := List.mem_singleton.mp hd
        exact absurd hname.symm he
    · exact .inr ⟨struct', by rw [← hs]; exact Dict.get?_insert_of_ne _ he _⟩

namespace OneToOne

theorem record (h : r.OneToOne) (hl : r.nameOf? l = none) (hname : name ∉ r.names) :
    (r.record ⟨l, name, origin⟩).OneToOne where
  locations := by
    have hd := nameOf?_eq_none_iff.mp hl
    have hm : l ∉ r.declarations.map Declaration.location := by
      intro hm
      obtain ⟨d, hd', he⟩ := List.mem_map.mp hm
      exact hd d hd' he
    simpa [Registry.record] using h.locations.concat hm
  names := by simpa [Registry.names, Registry.record] using h.names.concat hname

theorem nameOf?_of_mem (h : r.OneToOne) (hd : d ∈ r.declarations) :
    r.nameOf? d.location = some d.name := by
  cases hn : r.nameOf? d.location with
  | none => exact absurd rfl (nameOf?_eq_none_iff.mp hn d hd)
  | some name =>
    obtain ⟨d', hd', hl, rfl⟩ := exists_of_nameOf? hn
    rw [List.inj_on_of_nodup_map h.locations hd' hd hl]

theorem owner?_of_mem (h : r.OneToOne) (hd : d ∈ r.declarations) : r.owner? d.name = some d := by
  cases ho : r.owner? d.name with
  | none => exact absurd (mem_names.mpr ⟨d, hd, rfl⟩) (owner?_eq_none_iff.mp ho)
  | some d' =>
    obtain ⟨hd', hname⟩ := mem_of_owner? ho
    rw [List.inj_on_of_nodup_map h.names hd' hd hname]

theorem nameOf?_eq_some_iff (h : r.OneToOne) :
    r.nameOf? l = some name ↔ (r.owner? name).map Declaration.location = some l := by
  constructor
  · intro hl
    obtain ⟨d, hd, rfl, rfl⟩ := exists_of_nameOf? hl
    rw [h.owner?_of_mem hd]
    rfl
  · intro ho
    obtain ⟨d, hd, rfl⟩ := Option.map_eq_some_iff.mp ho
    obtain ⟨hmem, rfl⟩ := mem_of_owner? hd
    exact h.nameOf?_of_mem hmem

theorem location_unique {l' : Location} (h : r.OneToOne) (hl : r.nameOf? l = some name)
    (hl' : r.nameOf? l' = some name) : l = l' := by
  rw [h.nameOf?_eq_some_iff] at hl hl'
  exact Option.some.inj (hl.symm.trans hl')

end OneToOne

theorem Consistent.oneToOne (h : r.Consistent) : r.OneToOne := ⟨h.locations, h.names⟩

theorem Consistent.record (h : r.Consistent) (hl : r.nameOf? l = none) (hname : name ∉ r.names) :
    (r.record ⟨l, name, origin⟩).Consistent where
  locations := (h.oneToOne.record hl hname).locations
  names := (h.oneToOne.record hl hname).names
  structs := fun name' hn => grows_record.names_subset (h.structs name' hn)

theorem Consistent.define (h : r.Consistent) {struct : Struct} (hname : struct.name ∈ r.names) :
    (r.define struct).1.Consistent where
  locations := h.locations
  names := h.names
  structs := by
    intro name hn
    by_cases he : name = struct.name
    · exact he ▸ hname
    · obtain ⟨struct', hs⟩ := Dict.mem_keys_iff.mp hn
      have hs : r.structs.get? name = some struct' := by
        rw [← hs]
        exact (Dict.get?_insert_of_ne _ he _).symm
      exact h.structs name (Dict.mem_keys_iff.mpr ⟨struct', hs⟩)

theorem Consistent.nameOf?_of_mem (h : r.Consistent) (hd : d ∈ r.declarations) :
    r.nameOf? d.location = some d.name :=
  h.oneToOne.nameOf?_of_mem hd

theorem Consistent.location_unique {l' : Location} (h : r.Consistent)
    (hl : r.nameOf? l = some name) (hl' : r.nameOf? l' = some name) : l = l' :=
  h.oneToOne.location_unique hl hl'

end Registry

end SchemaStructs
