import Mathlib
import SchemaStructs.Proofs.Identifiers

namespace SchemaStructs

theorem Text.upperCase_ne_nil (c : Char) : upperCase c ≠ [] := by
  have htable : ∀ e ∈ caseExpansions, e.2 ≠ [] := by decide
  unfold upperCase
  split
  · simp
  split
  next e he => simpa using htable e (List.mem_of_find?_eq_some he)
  next => split <;> simp

namespace Naming

open Text (upperCase)

def pieces (cs : List Char) : List (List Char) := cs.splitOnP fun c => !isIdentifierChar c

/-- The maximal runs of identifier characters, in their order. -/
def runs (cs : List Char) : List (List Char) := (pieces cs).filter fun run => !run.isEmpty

def capitalized : List Char → List Char
  | [] => []
  | c :: cs => upperCase c ++ cs

variable {cs : List Char}

theorem exists_pieces (cs : List Char) : ∃ piece rest, pieces cs = piece :: rest :=
  List.exists_cons_of_ne_nil (List.splitOnP_ne_nil _ cs)

theorem pieces_cons (c : Char) (cs : List Char) :
    pieces (c :: cs) =
      if isIdentifierChar c then (pieces cs).modifyHead (c :: ·) else [] :: pieces cs := by
  rw [pieces, List.splitOnP_cons_eq_if_modifyHead]
  cases isIdentifierChar c <;> rfl

/-- The first piece continues the run that was begun before it, if one was, and each later piece
is a run of its own. -/
theorem exportedFrom_of_pieces {piece : List Char} {rest : List (List Char)}
    (h : pieces cs = piece :: rest) (starts : Bool) :
    exportedFrom starts cs =
      (if starts then capitalized piece else piece) ++ rest.flatMap capitalized := by
  induction cs generalizing piece rest starts with
  | nil =>
    obtain ⟨rfl, rfl⟩ := List.cons.inj h
    cases starts <;> rfl
  | cons c cs ih =>
    obtain ⟨next, later, hcs⟩ := exists_pieces cs
    rw [pieces_cons, hcs] at h
    by_cases hc : isIdentifierChar c
    · rw [if_pos hc] at h
      obtain ⟨rfl, rfl⟩ := List.cons.inj h
      rw [exportedFrom, if_pos hc, ih hcs false]
      cases starts <;> simp [capitalized]
    · -- The piece in front of `c` is empty, and a run starts behind it.
      rw [if_neg hc] at h
      obtain ⟨rfl, rfl⟩ := List.cons.inj h
      rw [exportedFrom, if_neg hc, ih hcs true]
      cases starts <;> simp [capitalized]

theorem flatMap_capitalized_runs (cs : List Char) :
    (runs cs).flatMap capitalized = (pieces cs).flatMap capitalized := by
  rw [runs]
  induction pieces cs with
  | nil => rfl
  | cons piece rest ih => cases piece <;> simp [capitalized, ih]

theorem exportedFrom_eq_flatMap_runs (cs : List Char) :
    exportedFrom true cs = (runs cs).flatMap capitalized := by
  obtain ⟨piece, rest, h⟩ := exists_pieces cs
  rw [flatMap_capitalized_runs, h, exportedFrom_of_pieces h true]
  rfl

theorem exportedFrom_of_forall (h : ∀ c ∈ cs, isIdentifierChar c) :
    exportedFrom true cs = capitalized cs := by
  have hone : pieces cs = [cs] := List.splitOnP_eq_singleton fun c hc => by simp [h c hc]
  simpa using exportedFrom_of_pieces hone true

theorem exportedFrom_eq_nil_iff (starts : Bool) :
    exportedFrom starts cs = [] ↔ ∀ c ∈ cs, ¬ isIdentifierChar c := by
  induction cs generalizing starts with
  | nil => simp [exportedFrom]
  | cons c cs ih =>
    rw [exportedFrom, List.forall_mem_cons]
    by_cases hc : isIdentifierChar c
    · have hkept : (if starts then upperCase c else [c]) ≠ [] := by
        cases starts <;> simp [Text.upperCase_ne_nil]
      simp [hc, hkept]
    · simp [hc, ih]

theorem isIdentifierChar_of_isPlain {c : Char} (h : isPlain c) : isIdentifierChar c := by
  rw [isIdentifierChar, Text.isAlphanumeric, if_pos (lt_of_isPlain h)]
  exact h

theorem plain_of_ascii {t : String} (h : ∀ c ∈ t.toList, c.toNat < 0x80) : Plain t := by
  intro c hc hid
  rwa [isIdentifierChar, Text.isAlphanumeric, if_pos (h c hc)] at hid

theorem upperCase_of_isPlain {c : Char} (h : isPlain c) : upperCase c = [c.toUpper] :=
  if_pos (lt_of_isPlain h)

theorem capitalized_exportedFrom (h : ∀ c ∈ cs, isIdentifierChar c → isPlain c) :
    capitalized (exportedFrom true cs) = exportedFrom true cs := by
  induction cs with
  | nil => rfl
  | cons c cs ih =>
    obtain ⟨hc, hcs⟩ := List.forall_mem_cons.mp h
    rw [exportedFrom]
    split
    next hkept =>
      have hplain := hc hkept
      have hupper : upperCase c.toUpper = [c.toUpper] := by
        rw [upperCase_of_isPlain (isPlain_toUpper hplain), Char.toUpper_toUpper_eq_toUpper]
      simp [upperCase_of_isPlain hplain, capitalized, hupper]
    next => exact ih hcs

theorem Plain.exported_exported {t : String} (h : Plain t) :
    Naming.exported (Naming.exported t) = Naming.exported t := by
  have hrun : ∀ c ∈ exportedFrom true t.toList, isIdentifierChar c := fun c hc =>
    isIdentifierChar_of_isPlain (isPlain_exportedFrom h true c hc)
  simp only [Naming.exported, String.toList_ofList]
  rw [exportedFrom_of_forall hrun, capitalized_exportedFrom h]

/-- The identifier of a text is made of its runs, each capitalized. There is none exactly if there
is no run, and for an ASCII text it is plain and gives itself again. -/
theorem exported_capitalizes_runs (s : String) :
    (exported s).toList = (runs s.toList).flatMap capitalized ∧
      (exported s = "" ↔ ∀ c ∈ s.toList, ¬ isIdentifierChar c) ∧
      ((∀ c ∈ s.toList, c.toNat < 0x80) →
        (∀ c ∈ (exported s).toList, isPlain c) ∧ exported (exported s) = exported s) := by
  refine ⟨?_, ?_, fun h => ?_⟩
  · rw [exported, String.toList_ofList, exportedFrom_eq_flatMap_runs]
  · rw [← String.toList_inj, exported, String.toList_ofList]
    exact exportedFrom_eq_nil_iff true
  · have hplain := plain_of_ascii h
    exact ⟨hplain.exported, hplain.exported_exported⟩

theorem header_capitalizes_runs :
    runs "-x-request id_2".toList = ["x".toList, "request".toList, "id_2".toList] ∧
      exported "-x-request id_2" = "XRequestId_2" ∧ exported "XRequestId_2" = "XRequestId_2" := by
  have hruns : runs "-x-request id_2".toList = ["x".toList, "request".toList, "id_2".toList] := by
    decide
  obtain ⟨hparts, -, hascii⟩ := exported_capitalizes_runs "-x-request id_2"
  have hname : exported "-x-request id_2" = "XRequestId_2" := by
    rw [← String.toList_inj, hparts, hruns]
    decide
  have hself := (hascii (by simp)).2
  rw [hname] at hself
  exact ⟨hruns, hname, hself⟩

/-- Beyond ASCII the upper case of a letter may end in marks, which a second pass drops. -/
example : exported (exported "ΐ") ≠ exported "ΐ" := by decide +kernel

end Naming

end SchemaStructs
