import SchemaStructs.Proofs.Roots
import SchemaStructs.Proofs.Termination

namespace SchemaStructs

theorem repeatedId?_eq_none_iff {seen : List String} {documents : List Document} :
    repeatedId? seen documents = none ↔
      (∀ d ∈ documents, d.id ∈ seen → d.id = "") ∧
        documents.Pairwise fun d d' => d.id = d'.id → d.id = "" := by
  induction documents generalizing seen with
  | nil => simp [repeatedId?]
  | cons d ds ih =>
    rw [repeatedId?, List.pairwise_cons, List.forall_mem_cons]
    by_cases hid : d.id = ""
    · simp [hid, ih]
    · by_cases hmem : d.id ∈ seen
      · simp [hid, hmem]
      · have hseen : (∀ d' ∈ ds, d'.id ∈ d.id :: seen → d'.id = "") ↔
            (∀ d' ∈ ds, d'.id ∈ seen → d'.id = "") ∧ ∀ d' ∈ ds, d.id = d'.id → d.id = "" := by
          constructor
          · intro h
            refine ⟨fun d' hd' hm => h d' hd' (List.mem_cons_of_mem _ hm), ?_⟩
            intro d' hd' he
            exact he.trans (h d' hd' (he ▸ List.mem_cons_self))
          · rintro ⟨hold, hnew⟩ d' hd' hm
            obtain he | hm := List.mem_cons.mp hm
            · exact he.trans (hnew d' hd' he.symm)
            · exact hold d' hd' hm
        rw [if_neg (by simpa using hid), if_neg (by simpa using hmem), ih, hseen]
        simp only [hmem, false_implies, true_and, and_assoc]

namespace Job

variable {job : Job} {names : Location → Option String} {l m : Location} {n : Node} {τ : TypeDesc}

theorem link_iff : job.Link l m ↔ job.Edge l m ∧ ¬ job.IsStructAt l := by
  constructor
  · intro h
    exact ⟨.inl h, h.not_isStructAt⟩
  · rintro ⟨h | h, hs⟩
    · exact h
    · exact absurd h.isStructAt hs

theorem HasType.exists_target {text : String} (h : job.HasType names l τ)
    (hn : job.nodeAt? l = some n) (hk : n.kind? = some (.reference text)) :
    ∃ target, Reference.resolve job.documents text l.document = .ok target := by
  cases h with
  | reference hn' hk' ht =>
    obtain rfl := Option.some.inj (hn.symm.trans hn')
    obtain rfl : text = _ := by simpa [hk] using hk'
    exact ⟨_, ht⟩
  | leaf hn' ht => simp_all [Node.leafType?]
  | items hn' hk' | value hn' hk' => simp_all
  | struct hn' hs => simp_all [Node.isStruct]

structure Typable (job : Job) : Prop where
  kind : ∀ l n, job.Live l → job.nodeAt? l = some n → n.kind? ≠ none
  target : ∀ l n text, job.Live l → job.nodeAt? l = some n → n.kind? = some (.reference text) →
    ∃ target, Reference.resolve job.documents text l.document = .ok target
  cycle : ∀ l, job.Live l → ¬ Relation.TransGen job.Link l l

theorem typable_of_hasType (h : ∀ l, job.Live l → ∃ τ, job.HasType names l τ) : job.Typable where
  kind := by
    intro l n hl hn
    obtain ⟨τ, hτ⟩ := h l hl
    obtain ⟨n', k, hn', hk⟩ := hτ.exists_kind
    obtain rfl := Option.some.inj (hn.symm.trans hn')
    simp [hk]
  target := by
    intro l n text hl hn hk
    obtain ⟨τ, hτ⟩ := h l hl
    exact hτ.exists_target hn hk
  cycle := by
    intro l hl
    obtain ⟨τ, hτ⟩ := h l hl
    exact hτ.grounded.not_cycle

end Job

namespace Synthesis

variable {job : Job} {s s' : Synthesis} {l m here : Location} {node : Node} {key : String}

def Linked (job : Job) (s : Synthesis) (l : Location) : Prop :=
  ∀ e ∈ s.inFlight, e.2 ≤ s.openStructs ∧
    (e.2 = s.openStructs → Relation.ReflTransGen job.Link e.1 l)

theorem Linked.link (h : s.Linked job l) (hl : job.Link l m) : s.Linked job m := by
  intro e he
  exact ⟨(h e he).1, fun heq => ((h e he).2 heq).tail hl⟩

theorem Linked.enter (h : s.Linked job l) (hl : job.Link l m) : (s.enter m).Linked job m := by
  intro e he
  obtain he | he := List.mem_append.mp he
  · exact h.link hl e he
  · obtain rfl := List.mem_singleton.mp he
    exact ⟨Nat.le_refl _, fun _ => .refl⟩

theorem Linked.opened {registry : Registry} {events : List Event} (h : s.Linked job l) :
    (s.opened registry events).Linked job m := by
  intro e he
  have hle : e.2 ≤ s.openStructs := (h e he).1
  have hopen : (s.opened registry events).openStructs = s.openStructs + 1 := rfl
  rw [hopen]
  exact ⟨by omega, fun heq => by omega⟩

theorem Linked.finished (h : s.Linked job l) (hf : s.Finished s') : s'.Linked job l := by
  unfold Linked
  rw [hf.inFlight, hf.openStructs]
  exact h

theorem linked_of_inFlight (h : s.inFlight = []) : s.Linked job l := by
  simp [Linked, h]

theorem reentry_cycle {recursive : Bool} (h : s.reentry recursive m = .cycle) :
    ∃ opened, (s.inFlight.find? fun e => e.1 = m) = some (m, opened) ∧
      s.openStructs ≤ opened := by
  unfold reentry at h
  split at h
  next => cases h
  next e opened hf =>
  obtain rfl : e = m := by simpa using List.find?_some hf
  split at h
  next => split at h <;> cases h
  next =>
  split at h
  next => cases h
  next hlt => exact ⟨opened, hf, Nat.le_of_not_lt hlt⟩

/-- The walk reports a cycle only where links lead back to where they started. -/
theorem Linked.transGen_of_cycle {recursive : Bool} (h : s.Linked job l) (hl : job.Link l m)
    (hc : s.reentry recursive m = .cycle) : Relation.TransGen job.Link l l := by
  obtain ⟨opened, hf, hle⟩ := reentry_cycle hc
  obtain ⟨hupper, hlinks⟩ := h _ (List.mem_of_find?_eq_some hf)
  exact .head' hl (hlinks (Nat.le_antisymm hupper hle))

/-- Nothing but the allowance can stop a walk. -/
theorem walk_error_eq_tooDeep (ht : job.Typable) (hrec : job.options.recursive = true)
    {n : Nat} {e : CompileError} (h : walk job n node here key s = (.error e, s'))
    (hn : job.nodeAt? here = some node) (hlive : job.Live here) (hs : s.Sound job)
    (hpolicy : s.registry.policy = .disambiguate) (hlinked : s.Linked job here) :
    e = .tooDeep := by
  induction n generalizing node here key s s' with
  | zero =>
    cases h
    rfl
  | succ n ih =>
    cases fails_of_walk h hn hs with
    | shape hk => exact absurd hk (ht.kind here node hlive hn)
    | unresolved hk hfail =>
      obtain ⟨target, hok⟩ := ht.target here node _ hlive hn hk
      cases hfail.symm.trans hok
    | cycle hk hok he =>
      exact absurd (hlinked.transGen_of_cycle (.reference hn hk hok) he) (ht.cycle here hlive)
    | reopened _ hr => simp [hr] at hrec
    | unnamed _ hfail => simp [hpolicy] at hfail
    | child hl hm hw =>
      exact ih hw ((Job.nodeAt?_join hn _).trans hm) (.edge hlive (.inl hl)) hs hpolicy
        (hlinked.link hl)
    | @target text target _ _ hl hn' _ hw =>
      -- The new entry holds the number of structs that are open now, with no link followed yet.
      have hmarked := hlinked.finished (finished_marked job text here target.location)
      exact ih hw hn' (.edge hlive (.inl hl)) ((hs.marked _ _).enter _) hpolicy (hmarked.enter hl)
    | slot hst hname hd hm hfin hs₁ hw =>
      have hgrows := (grown_opened hname hd).registry.trans hfin.registry
      exact ih hw (Job.nodeAt?_slot hn hm) (.edge hlive (.inr (Job.part_slot hn hst hm))) hs₁
        (hgrows.policy.trans hpolicy) (hlinked.opened.finished hfin)

theorem synthesizeRoot_ne_error {i : Nat} {e : CompileError} (ht : job.Typable)
    (hrec : job.options.recursive = true) (hi : i < job.documents.length) (hs : s.Sound job)
    (hpolicy : s.registry.policy = .disambiguate) (hflight : s.inFlight = []) :
    synthesizeRoot job i s ≠ (.error e, s') := by
  intro h
  obtain ⟨node, hn, hroot⟩ := exists_root hi
  rw [hroot] at h
  obtain rfl := walk_error_eq_tooDeep ht hrec h hn (.root hi) hs hpolicy
    (linked_of_inFlight hflight)
  exact synthesize_ne_tooDeep hn hs hflight (by rw [h])

theorem Roots.eq_ok {is : List Nat} {r : Except CompileError Unit} (h : Roots job is s r s')
    (ht : job.Typable) (hrec : job.options.recursive = true)
    (hi : ∀ i ∈ is, i < job.documents.length) (hs : s.Sound job)
    (hpolicy : s.registry.policy = .disambiguate) (hflight : s.inFlight = []) : r = .ok () := by
  induction h with
  | nil => rfl
  | fail hw =>
    have hlt := hi _ List.mem_cons_self
    exact absurd hw (synthesizeRoot_ne_error ht hrec hlt hs hpolicy hflight)
  | @cons i rest τ s s₁ s' r hw _ ih =>
    obtain ⟨node, hn, hroot⟩ := exists_root (hi i List.mem_cons_self)
    rw [hroot] at hw
    have hf : s.Finished s₁ := walk_after hw
    have hs₁ : s₁.Sound job := (walk_faithful _ _ _ _ _ _ _ hw hn hs).1
    exact ih (fun i hm => hi i (List.mem_cons_of_mem _ hm)) hs₁
      (hf.registry.policy.trans hpolicy) (hf.inFlight.trans hflight)

end Synthesis

open Synthesis

/-- What it takes to compile: where names are disambiguated and structs may be recursive, documents
compile if and only if no two share an identity, all live nodes have kinds, all live references
resolve, and every cycle of live nodes goes through a struct. -/
theorem compile_ok_iff (documents : List Document) (rootName : String) :
    let options : Options := { policy := .disambiguate, recursive := true, rootName }
    let job : Job := { documents, options }
    (∃ m, (compile options documents).result = .ok m) ↔
      (documents.Pairwise fun d d' => d.id = d'.id → d.id = "") ∧
        (∀ l n, job.Live l → job.nodeAt? l = some n → n.kind? ≠ none) ∧
        (∀ l n text, job.Live l → job.nodeAt? l = some n → n.kind? = some (.reference text) →
          ∃ target, Reference.resolve documents text l.document = .ok target) ∧
        ∀ l, job.Live l →
          ¬ Relation.TransGen (fun a b => job.Edge a b ∧ ¬ job.IsStructAt a) l l := by
  intro options job
  have hlink : (fun a b => job.Edge a b ∧ ¬ job.IsStructAt a) = job.Link := by
    funext a b
    exact propext Job.link_iff.symm
  rw [hlink]
  constructor
  · rintro ⟨m, h⟩
    obtain ⟨hid, s, hroots, -, -⟩ := compile_ok h
    have hs : s.Settled job := settled_of_roots hroots
    have ht : job.Typable := Job.typable_of_hasType fun l => hs.exists_type
    exact ⟨(repeatedId?_eq_none_iff.mp hid).2, ht.kind, ht.target, ht.cycle⟩
  · rintro ⟨hid, hkind, htarget, hcycle⟩
    cases hrun : synthesizeRoots job (start options) with
    | mk r s =>
      obtain rfl := (synthesizeRoots_iff.mp hrun).eq_ok ⟨hkind, htarget, hcycle⟩ rfl
        (fun i => List.mem_range.mp) (sound_start _) rfl rfl
      have hnone : repeatedId? [] documents = none := repeatedId?_eq_none_iff.mpr ⟨nofun, hid⟩
      refine ⟨s.registry.structs, ?_⟩
      rw [compile, hnone, hrun]

end SchemaStructs
