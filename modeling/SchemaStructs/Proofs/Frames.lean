import SchemaStructs.Proofs.BaseNames
import SchemaStructs.Proofs.History
import SchemaStructs.Proofs.Recursion

namespace SchemaStructs

structure Frame where
  node : Node
  location : Location
  /-- Whether the walk came to it as to the target of a reference. -/
  entered : Bool := false

namespace Frame

/-- The targets of references among nodes inside one another, each with the number of structs that
are open when the walk comes to it, if `opened` are open before. -/
def entries (opened : Nat) : List Frame → List (Location × Nat)
  | [] => []
  | f :: rest =>
    (if f.entered then [(f.location, opened)] else []) ++
      entries (opened + if f.node.isStruct then 1 else 0) rest

def since (target : Location) (chain : List Frame) : List Frame :=
  chain.dropWhile fun f => !(f.entered && f.location = target)

def structs (chain : List Frame) : Nat := chain.countP fun f => f.node.isStruct

variable {opened : Nat} {chain : List Frame} {target : Location} {f : Frame}

theorem structs_cons :
    structs (f :: chain) = (if f.node.isStruct then 1 else 0) + structs chain := by
  simp only [structs, List.countP_cons]
  omega

theorem structs_snoc :
    structs (chain ++ [f]) = structs chain + if f.node.isStruct then 1 else 0 := by
  simp [structs, List.countP_cons]

theorem structs_pos_iff : 0 < structs chain ↔ ∃ f ∈ chain, f.node.isStruct := List.countP_pos_iff

theorem entries_append (opened : Nat) (chain inner : List Frame) :
    entries opened (chain ++ inner) =
      entries opened chain ++ entries (opened + structs chain) inner := by
  induction chain generalizing opened with
  | nil => simp [entries, structs]
  | cons f rest ih => simp [entries, ih, structs_cons, Nat.add_assoc]

theorem map_fst_entries : (entries opened chain).map Prod.fst =
    (chain.filter entered).map location := by
  induction chain generalizing opened with
  | nil => rfl
  | cons f rest ih => cases hf : f.entered <;> simp [entries, hf, ih]

theorem bounds_of_mem_entries {e : Location × Nat} (h : e ∈ entries opened chain) :
    opened ≤ e.2 ∧ e.2 ≤ opened + structs chain := by
  induction chain generalizing opened with
  | nil => cases h
  | cons f rest ih =>
    rw [structs_cons]
    obtain h | h := List.mem_append.mp h
    · obtain ⟨-, rfl⟩ : f.entered ∧ e = (f.location, opened) := by simpa using h
      simp
    · have := ih h
      omega

theorem pairwise_entries : ((entries opened chain).map Prod.snd).Pairwise (· ≤ ·) := by
  induction chain generalizing opened with
  | nil => exact .nil
  | cons f rest ih =>
    rw [entries, List.map_append]
    refine List.pairwise_append.mpr ⟨?_, ih, ?_⟩
    · split
      · exact List.pairwise_singleton _ _
      · exact .nil
    · intro a ha b hb
      obtain ⟨-, rfl⟩ : f.entered ∧ a = opened := by simpa using ha
      obtain ⟨e, he, rfl⟩ := List.mem_map.mp hb
      exact (Nat.le_add_right _ _).trans (bounds_of_mem_entries he).1

/-- What is stored with a target is the number of structs on the way to where it was entered first:
the others are from there on. -/
theorem add_structs_since {e : Location × Nat}
    (h : (entries opened chain).find? (fun e => e.1 = target) = some e) :
    e.2 + structs (since target chain) = opened + structs chain := by
  induction chain generalizing opened with
  | nil => cases h
  | cons f rest ih =>
    by_cases hf : f.entered ∧ f.location = target
    · obtain rfl : (f.location, opened) = e := by simpa [entries, hf.1, hf.2] using h
      simp [since, hf.1, hf.2]
    · have hrest : (entries (opened + if f.node.isStruct then 1 else 0) rest).find?
          (fun e => e.1 = target) = some e := by
        cases hentered : f.entered <;> simp_all [entries]
      have hsince : since target (f :: rest) = since target rest := by
        exact List.dropWhile_cons_of_pos (by simpa [imp_iff_not_or] using hf)
      rw [hsince, structs_cons, ih hrest]
      omega

end Frame

namespace Synthesis

section
variable (job : Job) (w : Node → Location → String → Synth TypeDesc) (node : Node) (here : Location)
  (key : String) (s : Synthesis)

/-- The calls that one step of the walk makes: at which node, with which key and in which state. -/
inductive Descends : Frame → String → Synthesis → Prop
  | items {items : Node} (hk : node.kind? = some (.array (some items))) :
    Descends ⟨items, here.join .items, false⟩ key s
  | value {value : Node} (hk : node.kind? = some (.map (some value))) :
    Descends ⟨value, here.join .additional, false⟩ key s
  | target {text : String} {target : Target} (hk : node.kind? = some (.reference text))
    (ht : Reference.resolve job.documents text here.document = .ok target)
    (hc : s.resolvedType? target.location = none)
    (he : s.reentry job.options.recursive target.location = .enter) :
    Descends ⟨target.node, target.location, true⟩ (job.targetKey target.location)
      ((s.marked job text here target.location).enter target.location)
  | slot {name : String} {registry : Registry} {events : List Event} {before after : List Slot}
    {slot : Slot} {fields : Dict String Field} {s' : Synthesis} (hs : node.isStruct)
    (hname : s.registry.nameOf? here = none)
    (hd : s.registry.declare here (Naming.typeName node.head.title key) (job.origin here)
      (job.stem? here.document) = .ok (name, registry, events))
    (hslots : node.slots name = before ++ slot :: after)
    (hf : Slots w here before ∅ (s.opened registry events) (.ok fields) s') :
    Descends ⟨slot.node, here.join slot.segment, false⟩ slot.key s'

end

variable {job : Job} {w w' : Node → Location → String → Synth TypeDesc} {node : Node}
  {here : Location} {key : String} {s s' : Synthesis}

theorem Slots.snoc {before : List Slot} {slot : Slot} {fields fields' : Dict String Field}
    {s₁ : Synthesis} {τ : TypeDesc} (h : Slots w here before fields s (.ok fields') s₁)
    (hw : w slot.node (here.join slot.segment) slot.key s₁ = (.ok τ, s')) :
    Slots w here (before ++ [slot]) fields s (.ok (slot.add fields' τ)) s' := by
  generalize hr : Except.ok fields' = r at h
  induction h with
  | nil =>
    cases hr
    exact .cons hw .nil
  | cons hw₁ _ ih => exact .cons hw₁ (ih hw hr)
  | fail => cases hr

theorem Slots.congr {slots before rest : List Slot} {fields : Dict String Field}
    {s₀ : Synthesis} {r : Except CompileError (Dict String Field)}
    (h : Slots w here rest fields s r s') (hslots : slots = before ++ rest)
    (hb : Slots w here before ∅ s₀ (.ok fields) s)
    (hw : ∀ before slot after fields s', slots = before ++ slot :: after →
      Slots w here before ∅ s₀ (.ok fields) s' →
      w' slot.node (here.join slot.segment) slot.key s' =
        w slot.node (here.join slot.segment) slot.key s') :
    Slots w' here rest fields s r s' := by
  induction h generalizing before with
  | nil => exact .nil
  | cons hw₁ _ ih =>
    refine .cons ((hw _ _ _ _ _ hslots hb).trans hw₁) (ih ?_ (hb.snoc hw₁))
    simpa using hslots
  | fail hw₁ => exact .fail ((hw _ _ _ _ _ hslots hb).trans hw₁)

/-- The calls are all that a step takes from the walk it is a step of. -/
theorem step_congr (hw : ∀ f k s', Descends job w node here key s f k s' →
    w' f.node f.location k s' = w f.node f.location k s') :
    step job w' node here key s = step job w node here key s := by
  obtain ⟨r, s', h⟩ : ∃ r s', Step job w node here key s r s' := Step.total
  rw [h.eq]
  apply Step.eq
  cases h with
  | shape hk => exact .shape hk
  | leaf ht => exact .leaf ht
  | items hk hw₁ => exact .items hk ((hw _ _ _ (.items hk)).trans hw₁)
  | value hk hw₁ => exact .value hk ((hw _ _ _ (.value hk)).trans hw₁)
  | unresolved hk ht => exact .unresolved hk ht
  | cached hk ht hc => exact .cached hk ht hc
  | forward hk ht hc he => exact .forward hk ht hc he
  | cycle hk ht hc he => exact .cycle hk ht hc he
  | entered hk ht hc he hw₁ =>
    exact .entered hk ht hc he ((hw _ _ _ (.target hk ht hc he)).trans hw₁)
  | lost hk ht hc he hw₁ => exact .lost hk ht hc he ((hw _ _ _ (.target hk ht hc he)).trans hw₁)
  | known hs hname hr => exact .known hs hname hr
  | reopened hs hname hr hd => exact .reopened hs hname hr hd
  | unnamed hs hname hd => exact .unnamed hs hname hd
  | built hs hname hd hf =>
    refine .built hs hname hd (hf.congr rfl .nil ?_)
    intro before slot after fields s' hslots hb
    exact hw _ _ _ (.slot hs hname hd hslots hb)
  | unbuilt hs hname hd hf =>
    refine .unbuilt hs hname hd (hf.congr rfl .nil ?_)
    intro before slot after fields s' hslots hb
    exact hw _ _ _ (.slot hs hname hd hslots hb)

/-- Some call has brought the walk to `f`, inside the nodes `outer`, the outermost first, with so
many steps left. Other calls may have come before, also ones that failed. -/
inductive Running (job : Job) : Nat → List Frame → Frame → String → Synthesis → Prop
  | call {s : Synthesis} {l : Location} {node : Node} (h : Reached job s)
    (hn : job.nodeAt? l = some node) (key : String) :
    Running job job.allowance [] ⟨node, l, false⟩ key s
  | inner {n : Nat} {outer : List Frame} {f g : Frame} {key key' : String} {s s' : Synthesis}
    (h : Running job (n + 1) outer f key s)
    (hc : Descends job (walk job n) f.node f.location key s g key' s') :
    Running job n (outer ++ [f]) g key' s'

structure Tracks (job : Job) (base : Nat) (outer : List Frame) (f : Frame) (s : Synthesis) :
    Prop where
  found : job.nodeAt? f.location = some f.node
  sound : s.Sound job
  inFlight : s.inFlight = Frame.entries base (outer ++ [f])
  openStructs : s.openStructs = base + Frame.structs outer
  opened : ∀ g ∈ outer, g.node.isStruct → s.Open g.location

variable {base : Nat} {outer : List Frame} {f g : Frame}

theorem Tracks.pass (h : Tracks job base outer f s) (hf : f.node.isStruct = false)
    (hg : job.nodeAt? g.location = some g.node) (hs : s'.Sound job)
    (hregistry : s'.registry = s.registry) (hopen : s'.openStructs = s.openStructs)
    (hflight : s'.inFlight = s.inFlight ++ Frame.entries s.openStructs [g]) :
    Tracks job base (outer ++ [f]) g s' where
  found := hg
  sound := hs
  inFlight := by
    have hstructs : base + Frame.structs (outer ++ [f]) = s.openStructs := by
      simp [Frame.structs_snoc, hf, h.openStructs]
    rw [hflight, h.inFlight, Frame.entries_append base (outer ++ [f]), hstructs]
  openStructs := by simp [hopen, h.openStructs, Frame.structs_snoc, hf]
  opened := by
    intro g' hg' hstruct
    obtain hg' | hg' := List.mem_append.mp hg'
    · have hopen := h.opened g' hg' hstruct
      rwa [Open, ← hregistry] at hopen
    · obtain rfl := List.mem_singleton.mp hg'
      simp [hf] at hstruct

theorem Tracks.slot {n : Nat} {name : String} {registry : Registry} {events : List Event}
    {before after : List Slot} {slot : Slot} {fields : Dict String Field}
    (h : Tracks job base outer f s)
    (ho : Opens job s f.node f.location key name registry events)
    (hslots : f.node.slots name = before ++ slot :: after)
    (hf : Slots (walk job n) f.location before ∅ (s.opened registry events) (.ok fields) s') :
    Tracks job base (outer ++ [f]) ⟨slot.node, f.location.join slot.segment, false⟩ s' := by
  have hmem : ∀ slot' ∈ before ++ slot :: after,
      job.nodeAt? (f.location.join slot'.segment) = some slot'.node :=
    fun slot' hm => Job.nodeAt?_slot ho.found (hslots ▸ hm)
  have hbefore : ∀ slot' ∈ before, job.nodeAt? (f.location.join slot'.segment) = some slot'.node :=
    fun slot' hm => hmem slot' (List.mem_append_left _ hm)
  have hs' : s'.Sound job :=
    (hf.sound (fun _ _ _ _ _ _ => walk_after) (walk_faithful n) hbefore (ho.sound h.sound)).1
  have hfin : (s.opened registry events).Finished s' := hf.after fun _ _ _ _ _ _ => walk_after
  refine ⟨hmem slot (by simp), hs', ?_, ?_, ?_⟩
  · rw [hfin.inFlight, Frame.entries_append]
    simpa [Frame.entries] using! h.inFlight
  · have hcount : s'.openStructs = s.openStructs + 1 := hfin.openStructs
    simp [hcount, h.openStructs, Frame.structs_snoc, ho.isStruct, Nat.add_assoc]
  · intro g hg hstruct
    obtain hg | hg := List.mem_append.mp hg
    · have hgrown := (grown_opened ho.unnamed ho.declared).trans hfin.toGrown
      exact (h.opened g hg hstruct).grows hgrown.registry
    · obtain rfl := List.mem_singleton.mp hg
      refine ⟨name, ?_, ho.get?_eq_none hf h.sound⟩
      exact hs'.consistent.nameOf?_of_mem (ho.mem_declarations hf)

theorem Tracks.descends {n : Nat} {key' : String} (h : Tracks job base outer f s)
    (hc : Descends job (walk job n) f.node f.location key s g key' s') :
    Tracks job base (outer ++ [f]) g s' := by
  cases hc with
  | items hk =>
    have hf : f.node.isStruct = false := by simp [Node.isStruct, hk]
    exact h.pass hf (Job.nodeAt?_items h.found hk) h.sound rfl rfl (by simp [Frame.entries])
  | value hk =>
    have hf : f.node.isStruct = false := by simp [Node.isStruct, hk]
    exact h.pass hf (Job.nodeAt?_value h.found hk) h.sound rfl rfl (by simp [Frame.entries])
  | target hk ht =>
    have hf : f.node.isStruct = false := by simp [Node.isStruct, hk]
    exact h.pass hf (Reference.nodeAt?_of_resolve ht) ((h.sound.marked _ _).enter _) rfl rfl rfl
  | slot hs hname hd hslots hf => exact h.slot ⟨h.found, hs, hname, hd⟩ hslots hf

theorem Running.tracks {n : Nat} (h : Running job n outer f key s) :
    ∃ base, Tracks job base outer f s := by
  induction h with
  | @call s l node h hn key =>
    obtain ⟨hs, hi⟩ := h.sound
    exact ⟨s.openStructs, hn, hs, hi, rfl, nofun⟩
  | inner _ hc ih =>
    obtain ⟨base, ht⟩ := ih
    exact ⟨base, ht.descends hc⟩

/-- Wherever a reference comes back to a target that is being walked, the numbers kept with targets
grow inwards up to the number of open structs, and more structs are open than when the target was
first entered if and only if one of the nodes being walked from there on is an open struct. -/
theorem opened_since_iff {n : Nat} {text : String} {target : Target} {e : Location × Nat}
    (h : Running job n outer f key s) (hk : f.node.kind? = some (.reference text))
    (ht : Reference.resolve job.documents text f.location.document = .ok target)
    (he : s.inFlight.find? (fun e => e.1 = target.location) = some e) :
    (s.inFlight.map Prod.snd).Pairwise (· ≤ ·) ∧ (∀ e ∈ s.inFlight, e.2 ≤ s.openStructs) ∧
      s.inFlight.map Prod.fst = ((outer ++ [f]).filter Frame.entered).map Frame.location ∧
      (e.2 < s.openStructs ↔
        ∃ g ∈ Frame.since target.location (outer ++ [f]), g.node.isStruct ∧ s.Open g.location) := by
  obtain ⟨base, hb⟩ := h.tracks
  have hf : f.node.isStruct = false := by simp [Node.isStruct, hk]
  -- A reference is no struct, so that the structs on the way to it are all that are open.
  have hopen : s.openStructs = base + Frame.structs (outer ++ [f]) := by
    simp [hb.openStructs, Frame.structs_snoc, hf]
  have hsince := Frame.add_structs_since (hb.inFlight ▸ he)
  refine ⟨hb.inFlight ▸ Frame.pairwise_entries, ?_, hb.inFlight ▸ Frame.map_fst_entries, ?_⟩
  · intro e' he'
    rw [hopen]
    exact (Frame.bounds_of_mem_entries (hb.inFlight ▸ he')).2
  · rw [show e.2 < s.openStructs ↔ 0 < Frame.structs (Frame.since target.location (outer ++ [f]))
      by omega, Frame.structs_pos_iff]
    constructor
    · rintro ⟨g, hg, hstruct⟩
      obtain hmem | hmem := List.mem_append.mp ((List.dropWhile_sublist _).subset hg)
      · exact ⟨g, hg, hstruct, hb.opened g hmem hstruct⟩
      · obtain rfl := List.mem_singleton.mp hmem
        simp [hf] at hstruct
    · rintro ⟨g, hg, hstruct, -⟩
      exact ⟨g, hg, hstruct⟩

def endlessRows : Written :=
  { Sample.named "array" with
    items := some
      { Sample.named "object" with
        properties := [("next", Sample.referring "#/definitions/rows")] } }

def stalled : Job where
  documents := [{
    id := "stalled"
    root := Written.schema
      { Sample.named "object" with
        properties := [("price", Sample.named "money")]
        definitions :=
          [("again", Sample.referring "#/definitions/rows"), ("rows", endlessRows)] } }]

theorem stalled_opened_since :
    let first := synthesizeRoot stalled 0 (start stalled.options)
    let rows := (Location.root 0).join (.definition "rows")
    first.1.toOption = none ∧ first.2.openStructs = 1 ∧
      ∃ n outer f key s, Running stalled n outer f key s ∧
        f.node.kind? = some (.reference "#/definitions/rows") ∧
        s.inFlight.find? (fun e => e.1 = rows) = some (rows, 1) ∧ s.openStructs = 2 ∧
        ∃ g ∈ Frame.since rows (outer ++ [f]), g.node.isStruct ∧ s.Open g.location := by
  intro first rows
  let again := (Location.root 0).join (.definition "again")
  obtain ⟨⟨_, node⟩, ht, rfl⟩ : ∃ target,
      Reference.resolve stalled.documents "#/definitions/rows" 0 = .ok target ∧
        target.location = rows := Reference.exists_target (by decide +kernel)
  obtain rfl : endlessRows.node = node := Option.some.inj (Reference.nodeAt?_of_resolve ht)
  -- The call that failed has left its record open, and the one after it comes to the list.
  have hcall : Running stalled 105 [] ⟨_, again, false⟩ "again" first.2 :=
    .call (.root .start 0) rfl "again"
  have hrows := (hcall.inner (.target rfl ht rfl rfl)).inner (.items rfl)
  have hnext := hrows.inner
    (.slot rfl rfl (Registry.declare_of_free rfl (by decide +kernel)) rfl .nil)
  have hsince := opened_since_iff hnext rfl ht rfl
  exact ⟨rfl, rfl, _, _, _, _, _, hnext, rfl, rfl, rfl, hsince.2.2.2.mp (by decide +kernel)⟩

end Synthesis

end SchemaStructs
