import Mathlib.Data.List.Basic
import SchemaStructs.Proofs.Chain
import SchemaStructs.Proofs.Failure

namespace SchemaStructs

namespace Synthesis

variable {job : Job} {s s' : Synthesis} {l here target : Location} {node : Node} {key : String}

section
variable {w w' : Node → Location → String → Synth TypeDesc}
  (hw : ∀ node l key s r s', w node l key s = (r, s') → r ≠ .error .tooDeep →
    w' node l key s = (r, s'))

include hw

theorem Slots.mono {slots : List Slot} {fields : Dict String Field}
    {r : Except CompileError (Dict String Field)} (h : Slots w here slots fields s r s')
    (hr : r ≠ .error .tooDeep) : Slots w' here slots fields s r s' := by
  induction h with
  | nil => exact .nil
  | cons hw₁ _ ih => exact .cons (hw _ _ _ _ _ _ hw₁ nofun) (ih hr)
  | fail hw₁ => exact .fail (hw _ _ _ _ _ _ hw₁ fun he => hr (by cases he; rfl))

theorem Step.mono {r : Except CompileError TypeDesc} (h : Step job w node here key s r s')
    (hr : r ≠ .error .tooDeep) : Step job w' node here key s r s' := by
  cases h with
  | shape hk => exact .shape hk
  | leaf ht => exact .leaf ht
  | items hk hw₁ => exact .items hk (hw _ _ _ _ _ _ hw₁ fun he => hr (by rw [he]; rfl))
  | value hk hw₁ => exact .value hk (hw _ _ _ _ _ _ hw₁ fun he => hr (by rw [he]; rfl))
  | unresolved hk ht => exact .unresolved hk ht
  | cached hk ht hc => exact .cached hk ht hc
  | forward hk ht hc he => exact .forward hk ht hc he
  | cycle hk ht hc he => exact .cycle hk ht hc he
  | entered hk ht hc he hw₁ => exact .entered hk ht hc he (hw _ _ _ _ _ _ hw₁ hr)
  | lost hk ht hc he hw₁ => exact .lost hk ht hc he (hw _ _ _ _ _ _ hw₁ hr)
  | known hs hname hd => exact .known hs hname hd
  | reopened hs hname hr' hd => exact .reopened hs hname hr' hd
  | unnamed hs hname hd => exact .unnamed hs hname hd
  | built hs hname hd hf => exact .built hs hname hd (hf.mono hw nofun)
  | unbuilt hs hname hd hf =>
    exact .unbuilt hs hname hd (hf.mono hw fun he => hr (by cases he; rfl))

end

theorem walk_succ {n : Nat} {r : Except CompileError TypeDesc}
    (h : walk job n node here key s = (r, s')) (hr : r ≠ .error .tooDeep) :
    walk job (n + 1) node here key s = (r, s') := by
  induction n generalizing node here key s r s' with
  | zero =>
    cases h
    exact absurd rfl hr
  | succ n ih => exact walk_succ_iff.mpr ((walk_succ_iff.mp h).mono (fun _ _ _ _ _ _ => ih) hr)

theorem walk_of_le {n n' : Nat} (hle : n ≤ n')
    (hr : (walk job n node here key s).1 ≠ .error .tooDeep) :
    walk job n' node here key s = walk job n node here key s := by
  induction hle with
  | refl => rfl
  | step _ ih => exact walk_succ ih hr

def unnamed (job : Job) (s : Synthesis) : Nat :=
  (job.locations.filter fun l => s.registry.nameOf? l = none).length

def unentered (job : Job) (s : Synthesis) : Nat :=
  (job.locations.filter fun l => l ∉ s.inFlight.map Prod.fst).length

theorem length_filter_lt {p q : Location → Prop} [DecidablePred p] [DecidablePred q]
    {ls : List Location} (hpq : ∀ l, p l → q l) (hl : l ∈ ls) (hq : q l) (hp : ¬ p l) :
    (ls.filter p).length < (ls.filter q).length := by
  have hs : (ls.filter p).Sublist (ls.filter q) :=
    List.monotone_filter_right ls fun l => by simpa using hpq l
  refine Nat.lt_of_le_of_ne hs.length_le fun he => ?_
  have hm : l ∈ ls.filter p := by
    rw [hs.eq_of_length he]
    simpa using ⟨hl, hq⟩
  exact hp (by simpa using (List.mem_filter.mp hm).2)

theorem unnamed_le (job : Job) (s : Synthesis) : s.unnamed job ≤ job.size := by
  rw [← job.length_locations]
  exact List.length_filter_le _ _

theorem unentered_le (job : Job) (s : Synthesis) : s.unentered job ≤ job.size := by
  rw [← job.length_locations]
  exact List.length_filter_le _ _

theorem unnamed_le_of_grows (h : s.registry.Grows s'.registry) :
    s'.unnamed job ≤ s.unnamed job := by
  refine (List.monotone_filter_right _ fun l hl => ?_).length_le
  cases hn : s.registry.nameOf? l with
  | none => rfl
  | some name => simp [h.nameOf? hn] at hl

theorem unnamed_opened_lt {base origin name : String} {qualifier : Option String}
    {registry : Registry} {events : List Event} (hn : job.nodeAt? here = some node)
    (hl : s.registry.nameOf? here = none)
    (hd : s.registry.declare here base origin qualifier = .ok (name, registry, events)) :
    (s.opened registry events).unnamed job < s.unnamed job := by
  obtain ⟨rfl, -, -⟩ := Registry.declare_ok hl hd
  refine length_filter_lt ?_ (Job.mem_locations hn) hl ?_
  · intro l hl'
    simp_all [Synthesis.opened, Registry.nameOf?_record]
  · simp [Synthesis.opened, Registry.nameOf?_record]

theorem unentered_enter_lt (hn : job.nodeAt? target = some node)
    (ht : ∀ e ∈ s.inFlight, e.1 ≠ target) : (s.enter target).unentered job < s.unentered job := by
  refine length_filter_lt ?_ (Job.mem_locations hn) ?_ ?_
  · intro l
    simp only [enter, List.map_append, List.mem_append, not_or]
    exact And.left
  · intro hm
    obtain ⟨e, he, rfl⟩ := List.mem_map.mp hm
    exact ht e he rfl
  · simp [enter]

theorem reentry_enter {recursive : Bool} (h : s.reentry recursive target = .enter) :
    (∀ e ∈ s.inFlight, e.1 ≠ target) ∨ (∃ name, s.registry.nameOf? target = some name) ∨
      ∃ e ∈ s.inFlight, e.1 = target ∧ e.2 < s.openStructs := by
  unfold reentry at h
  split at h
  next hf => exact .inl (by simpa using hf)
  next e opened hf =>
  split at h
  next name hname => exact .inr (.inl ⟨name, hname⟩)
  next =>
    have he : e = target := by simpa using List.find?_some hf
    by_cases ho : opened < s.openStructs
    · exact .inr (.inr ⟨_, List.mem_of_find?_eq_some hf, he, ho⟩)
    · simp [ho] at h

/-- Whatever was entered before the last struct was opened leads to a struct. -/
def Upright (job : Job) (s : Synthesis) : Prop :=
  ∀ e ∈ s.inFlight, e.2 < s.openStructs → job.Grounded e.1

/-- A chain of links without an end opens no struct. So no target on it is entered twice, and
between two targets the walk goes down. -/
theorem walk_ne_tooDeep_of_not_grounded {n : Nat} {e : CompileError}
    (h : walk job n node here key s = (.error e, s')) (hn : job.nodeAt? here = some node)
    (hg : ¬ job.Grounded here) (hs : s.Sound job) (hu : s.Upright job)
    (hb : s.unentered job * (job.size + 1) + node.size ≤ n) : e ≠ .tooDeep := by
  induction n generalizing node here key s s' with
  | zero =>
    have := node.size_pos
    omega
  | succ n ih =>
    cases fails_of_walk h hn hs with
    | shape | unresolved | cycle | reopened | unnamed => exact nofun
    | child hl hm hw =>
      have hg' := mt (Job.grounded_iff_of_link hl).mpr hg
      have hlt := Node.size_lt_of_child? hm
      exact ih hw ((Job.nodeAt?_join hn _).trans hm) hg' hs hu (by omega)
    | @target text target _ s' hl hn' he hw =>
      have hg' := mt (Job.grounded_iff_of_link hl).mpr hg
      -- A target that is entered again has a name, or a struct was opened since: either way its
      -- links would end.
      obtain hfree | ⟨name, hname⟩ | ⟨entry, hm, heq, hlt⟩ := reentry_enter he
      · have hlt : ((s.marked job text here target.location).enter target.location).unentered job <
            s.unentered job := unentered_enter_lt hn' hfree
        refine ih hw hn' hg' ((hs.marked _ _).enter _) ?_ ?_
        · intro entry hm hlt'
          obtain hm | hm := List.mem_append.mp hm
          · exact hu entry hm hlt'
          · obtain rfl := List.mem_singleton.mp hm
            exact absurd hlt' (Nat.lt_irrefl _)
        · have hsize := Job.size_le_of_nodeAt? hn'
          have hmul := Nat.mul_le_mul_right (job.size + 1) hlt
          rw [Nat.succ_mul] at hmul
          omega
      · exact absurd (hs.hasType_of_nameOf? hname).grounded hg'
      · exact absurd (heq ▸ hu entry hm hlt) hg'
    | slot hst => exact absurd ⟨0, Job.IsStructAt.ends ⟨node, hn, hst⟩⟩ hg

/-- A walk from a grounded node comes to a struct after so many links. If it opens the struct,
fewer nodes are left without a name, and the walk of each slot starts afresh. -/
theorem walk_ne_tooDeep_of_ends {n k : Nat} {e : CompileError}
    (h : walk job n node here key s = (.error e, s')) (hn : job.nodeAt? here = some node)
    (hk : job.Ends k here) (hs : s.Sound job) (hg : ∀ e ∈ s.inFlight, job.Grounded e.1)
    (hb : s.unnamed job * (job.size + 1) + k + 1 + (job.size * (job.size + 1) + job.size) ≤ n) :
    e ≠ .tooDeep := by
  induction n generalizing node here key s s' k with
  | zero => omega
  | succ n ih =>
    cases fails_of_walk h hn hs with
    | shape | unresolved | cycle | reopened | unnamed => exact nofun
    | child hl hm hw =>
      obtain ⟨j, rfl, hj⟩ := hk.of_link hl
      exact ih hw ((Job.nodeAt?_join hn _).trans hm) hj hs hg (by omega)
    | @target text target _ s' hl hn' _ hw =>
      obtain ⟨j, rfl, hj⟩ := hk.of_link hl
      have hsame : ((s.marked job text here target.location).enter target.location).unnamed job =
          s.unnamed job := rfl
      refine ih hw hn' hj ((hs.marked _ _).enter _) ?_ (by rw [hsame]; omega)
      intro entry hm
      obtain hm | hm := List.mem_append.mp hm
      · exact hg entry hm
      · obtain rfl := List.mem_singleton.mp hm
        exact ⟨j, hj⟩
    | @slot slot _ _ _ _ _ s₁ _ hst hname hd hm hfin hs₁ hw =>
      have hn₁ := Job.nodeAt?_slot hn hm
      have hg₁ : ∀ e ∈ s₁.inFlight, job.Grounded e.1 := by
        rw [hfin.inFlight]
        exact hg
      have hlt : s₁.unnamed job < s.unnamed job :=
        Nat.lt_of_le_of_lt (unnamed_le_of_grows hfin.registry) (unnamed_opened_lt hn hname hd)
      have hmul := Nat.mul_le_mul_right (job.size + 1) hlt
      rw [Nat.succ_mul] at hmul
      -- The links from a slot may have no end, though those of all targets entered so far do.
      by_cases hslot : job.Grounded (here.join slot.segment)
      · obtain ⟨j, hj⟩ := hslot
        have := hj.lt_size hn₁
        exact ih hw hn₁ hj hs₁ hg₁ (by omega)
      · have hun := Nat.mul_le_mul_right (job.size + 1) (s₁.unentered_le job)
        have := Job.size_le_of_nodeAt? hn₁
        exact walk_ne_tooDeep_of_not_grounded hw hn₁ hslot hs₁ (fun e he _ => hg₁ e he) (by omega)

theorem synthesize_ne_tooDeep (hn : job.nodeAt? here = some node) (hs : s.Sound job)
    (hi : s.inFlight = []) : (synthesize job node here key s).1 ≠ .error .tooDeep := by
  have hun : ∀ m ≤ job.size, m * (job.size + 1) ≤ job.size * (job.size + 1) :=
    fun m hm => Nat.mul_le_mul_right _ hm
  have hb : 2 * (job.size * (job.size + 1)) + 2 * job.size ≤ job.allowance := by
    rw [Job.allowance, Nat.mul_comm (job.size + 1), Nat.add_mul, Nat.mul_assoc]
    omega
  intro he
  have h : walk job job.allowance node here key s = (.error .tooDeep, _) := Prod.ext he rfl
  by_cases hg : job.Grounded here
  · obtain ⟨k, hk⟩ := hg
    have := hk.lt_size hn
    have := hun _ (s.unnamed_le job)
    exact walk_ne_tooDeep_of_ends h hn hk hs (by simp [hi]) (by omega) rfl
  · have := hun _ (s.unentered_le job)
    have := Job.size_le_of_nodeAt? hn
    exact walk_ne_tooDeep_of_not_grounded h hn hg hs (by simp [Upright, hi]) (by omega) rfl

end Synthesis

end SchemaStructs
