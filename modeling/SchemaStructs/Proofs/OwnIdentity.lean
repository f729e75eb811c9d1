import SchemaStructs.Proofs.Ambiguity

namespace SchemaStructs

namespace Text

variable {p : Char → Bool} {cs front marks : List Char} {c : Char}

theorem getLast?_dropEndWhile : ∀ c ∈ (dropEndWhile p cs).getLast?, p c = false := by
  intro c hc
  have hne : dropEndWhile p cs ≠ [] := by
    intro he
    simp [he] at hc
  have hlast : (dropEndWhile p cs).getLast hne = c :=
    Option.some.inj ((List.getLast?_eq_getLast_of_ne_nil hne).symm.trans hc)
  rw [← hlast]
  exact Bool.eq_false_iff.mpr (List.rdropWhile_last_not p cs hne)

theorem head?_dropEndWhile : ∀ c ∈ (dropEndWhile p cs).head?, c ∈ cs.head? := by
  intro c hc
  obtain ⟨rest, hrest⟩ := List.rdropWhile_prefix p cs
  rw [← hrest]
  exact List.mem_head?_append_of_mem_head? hc

theorem head?_trim : ∀ c ∈ (trim cs).head?, isBlank c = false := by
  intro c hc
  have hdrop : (cs.dropWhile isBlank).head? = some c := head?_dropEndWhile c hc
  have hnot := List.head?_dropWhile_not isBlank cs
  rw [hdrop] at hnot
  simpa using hnot

theorem trim_sublist : (trim cs).Sublist cs :=
  (List.rdropWhile_prefix _ _).sublist.trans (List.dropWhile_sublist _)

theorem getLast?_trim : ∀ c ∈ (trim cs).getLast?, isBlank c = false := getLast?_dropEndWhile

theorem dropEndWhile_append (hc : p c = false) (hm : ∀ m ∈ marks, p m = true) :
    dropEndWhile p (front ++ c :: marks) = front ++ [c] := by
  have hm : ∀ m ∈ marks.reverse, p m = true := fun m h => hm m (List.mem_reverse.mp h)
  simp [dropEndWhile, List.dropWhile_append_of_pos hm, hc]

end Text

namespace Document

open Text (isBlank trim dropEndWhile)

def MarkedAfterBlank (text : String) : Prop :=
  ∃ front blank marks, trim text.toList = front ++ blank :: marks ∧ isBlank blank ∧
    marks ≠ [] ∧ ∀ c ∈ marks, c = '#'

variable {text source : String} {root : Schema} {d : Document}

theorem toList_normalizeId (text : String) :
    (normalizeId text).toList = dropEndWhile (· == '#') (trim text.toList) := by
  simp [normalizeId]

/-- A blank that the removal of `#` uncovers is not removed in turn. -/
theorem markedAfterBlank_iff :
    MarkedAfterBlank text ↔ ∃ c ∈ (normalizeId text).toList.getLast?, isBlank c = true := by
  rw [toList_normalizeId]
  constructor
  · rintro ⟨front, blank, marks, htrim, hblank, -, hmarks⟩
    have hne : (blank == '#') = false := by
      apply beq_false_of_ne
      rintro rfl
      cases hblank
    have hdrop : dropEndWhile (· == '#') (trim text.toList) = front ++ [blank] := by
      rw [htrim]
      exact Text.dropEndWhile_append hne fun c hc => beq_iff_eq.mpr (hmarks c hc)
    exact ⟨blank, by simp [hdrop], hblank⟩
  · rintro ⟨blank, hlast, hblank⟩
    obtain ⟨front, hfront⟩ := List.getLast?_eq_some_iff.mp hlast
    have hsplit : dropEndWhile (· == '#') (trim text.toList) ++
        (trim text.toList).rtakeWhile (· == '#') = trim text.toList :=
      List.rdropWhile_append_rtakeWhile
    have htrim : trim text.toList =
        front ++ blank :: (trim text.toList).rtakeWhile (· == '#') := by
      rw [← List.singleton_append, ← List.append_assoc, ← hfront, hsplit]
    refine ⟨front, blank, _, htrim, hblank, ?_, ?_⟩
    · intro hnil
      have hlast : blank ∈ (trim text.toList).getLast? := by
        rw [htrim, hnil]
        simp
      simp [Text.getLast?_trim blank hlast] at hblank
    · intro c hc
      simpa using List.mem_rtakeWhile_imp hc

theorem normalizeId_normalizeId_iff :
    normalizeId (normalizeId text) = normalizeId text ↔ ¬ MarkedAfterBlank text := by
  rw [markedAfterBlank_iff]
  constructor
  · rintro heq ⟨c, hc, hblank⟩
    -- Nothing more is removed the second time, in particular not the blank at the end.
    have hsub : (normalizeId text).toList.Sublist (trim (normalizeId text).toList) := by
      nth_rewrite 1 [← heq]
      rw [toList_normalizeId]
      exact (List.rdropWhile_prefix _ _).sublist
    rw [hsub.antisymm Text.trim_sublist] at hc
    simp [Text.getLast?_trim c hc] at hblank
  · intro hends
    have hlast : ∀ c ∈ (normalizeId text).toList.getLast?, isBlank c = false := by
      intro c hc
      exact Bool.eq_false_iff.mpr fun hblank => hends ⟨c, hc, hblank⟩
    have hhead : ∀ c ∈ (normalizeId text).toList.head?, isBlank c = false := by
      intro c hc
      rw [toList_normalizeId] at hc
      exact Text.head?_trim c (Text.head?_dropEndWhile c hc)
    have hmark : ∀ c ∈ (normalizeId text).toList.getLast?, (c == '#') = false := by
      intro c hc
      rw [toList_normalizeId] at hc
      exact Text.getLast?_dropEndWhile c hc
    rw [normalizeId, Text.trim_eq_self hhead hlast, Text.dropEndWhile_eq_self hmark,
      String.ofList_toList]

/-- The text that a document has its identity from: the one that it declares, unless nothing of that
is left, and then the name of its source. -/
def identityText (source : String) (root : Schema) : String :=
  (root.node.head.id.filter fun id => !(normalizeId id).isEmpty).getD source

theorem normalizeId_identityText (source : String) (root : Schema) :
    normalizeId (identityText source root) = (declaredId? root).getD (normalizeId source) := by
  unfold identityText declaredId?
  cases root.node.head.id with
  | none => rfl
  | some id => by_cases he : (normalizeId id).isEmpty <;> simp [Option.filter, he]

theorem id_of_ofSchema (h : ofSchema source root = .ok d) :
    d.id = normalizeId (identityText source root) ∧ d.aliases = [] := by
  rw [normalizeId_identityText]
  unfold ofSchema at h
  dsimp only at h
  split at h
  · cases h
  · cases h
    exact ⟨rfl, rfl⟩

/-- A document answers to the text that it has its identity from. To its identity it answers exactly
if that is left as it is when it is normalized once more: if there is no blank before the `#` at the
end of the text. -/
theorem ofSchema_answers_to_id (h : ofSchema source root = .ok d) (hne : d.id ≠ "") :
    d.isIdentifiedBy (identityText source root) ∧
      (d.isIdentifiedBy d.id ↔ normalizeId d.id = d.id) ∧
      (normalizeId d.id = d.id ↔ ¬ MarkedAfterBlank (identityText source root)) := by
  obtain ⟨hid, halias⟩ := id_of_ofSchema h
  have hiff : ∀ text, d.isIdentifiedBy text ↔ normalizeId text ≠ "" ∧ normalizeId text = d.id := by
    intro text
    simp [isIdentifiedBy_iff, identities, halias]
  refine ⟨(hiff _).mpr ⟨hid ▸ hne, hid.symm⟩, ?_, ?_⟩
  · rw [hiff]
    exact ⟨And.right, fun heq => ⟨heq.symm ▸ hne, heq⟩⟩
  · rw [hid]
    exact normalizeId_normalizeId_iff

theorem marked_answers_to_id :
    ∃ d, ofSchema "" ({ id := some " orders##" } : Written).schema = .ok d ∧ d.id = "orders" ∧
      d.isIdentifiedBy " orders##" ∧ d.isIdentifiedBy d.id ∧ normalizeId d.id = d.id := by
  have hnormal : normalizeId "orders" = "orders" := by decide +kernel
  obtain ⟨d, h, hid, -⟩ : ∃ d, ofSchema "" ({ id := some " orders##" } : Written).schema = .ok d ∧
      d.id = "orders" ∧ d.aliases = [] := exists_of_names (by decide +kernel)
  have htext : identityText "" ({ id := some " orders##" } : Written).schema = " orders##" := by
    decide +kernel
  obtain ⟨hanswers, hiff, -⟩ := ofSchema_answers_to_id h (by simp [hid])
  rw [htext] at hanswers
  have hd : normalizeId d.id = d.id := hid ▸ hnormal
  exact ⟨d, h, hid, hanswers, hiff.mpr hd, hd⟩

/-- Where a blank is left at the end of an identity, the document does not answer to it. -/
theorem blank_before_mark_unanswered :
    ∃ d, ofSchema "" ({ id := some "orders #" } : Written).schema = .ok d ∧ d.id = "orders " ∧
      d.id ≠ "" ∧ d.isIdentifiedBy d.id = false ∧ normalizeId d.id ≠ d.id := by
  obtain ⟨d, h, hid, halias⟩ : ∃ d,
      ofSchema "" ({ id := some "orders #" } : Written).schema = .ok d ∧ d.id = "orders " ∧
        d.aliases = [] := exists_of_names (by decide +kernel)
  have hnormal : normalizeId "orders " = "orders" := by decide +kernel
  refine ⟨d, h, hid, by simp [hid], ?_, ?_⟩
  · simp [isIdentifiedBy, hid, halias, hnormal]
  · simp [hid, hnormal]

end Document

end SchemaStructs
