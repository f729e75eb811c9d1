import SchemaStructs.TypeDesc

namespace SchemaStructs.TypeDesc

def words : List TypeDesc :=
  [any, primitive .string, primitive .integer, primitive .number, primitive .boolean]

/-- Reads a type off its text. The first character tells the form, so the name of a struct may be
any text. -/
def ofChars? : List Char → Option TypeDesc
  | '*' :: name => some (struct (String.ofList name))
  | '[' :: ']' :: cs => (ofChars? cs).map slice
  | 'm' :: 'a' :: 'p' :: '[' :: 's' :: 't' :: 'r' :: 'i' :: 'n' :: 'g' :: ']' :: cs =>
    (ofChars? cs).map map
  | cs => words.find? fun d => d.text.toList == cs

def ofText? (t : String) : Option TypeDesc := ofChars? t.toList

theorem ofChars?_text (d : TypeDesc) : ofChars? d.text.toList = some d := by
  induction d with
  | primitive p => cases p <;> rfl
  | any => rfl
  | struct name => simp [text, ofChars?]
  | slice element ih => simp [text, ofChars?, ih]
  | map value ih => simp [text, ofChars?, ih]

theorem toList_text_of_ofChars? {cs : List Char} {d : TypeDesc} (h : ofChars? cs = some d) :
    d.text.toList = cs := by
  fun_induction ofChars? cs generalizing d with
  | case1 name =>
    obtain rfl := Option.some.inj h
    simp [text]
  | case2 cs ih =>
    obtain ⟨element, he, rfl⟩ := Option.map_eq_some_iff.mp h
    simp [text, ih he]
  | case3 cs ih =>
    obtain ⟨value, hv, rfl⟩ := Option.map_eq_some_iff.mp h
    simp [text, ih hv]
  | case4 cs =>
    have hword := List.find?_some h
    exact eq_of_beq hword

theorem ofText?_eq_some_iff {t : String} {d : TypeDesc} : ofText? t = some d ↔ d.text = t := by
  refine ⟨fun h => String.toList_inj.mp (toList_text_of_ofChars? h), ?_⟩
  rintro rfl
  exact ofChars?_text d

/-- No two types have one text, whatever the names of structs, and the texts of types are exactly
those from which a type can be read. -/
theorem text_unambiguous (d e : TypeDesc) (t : String) :
    (d.text = e.text ↔ d = e) ∧ (ofText? t = some d ↔ d.text = t) := by
  refine ⟨⟨fun h => ?_, congrArg text⟩, ofText?_eq_some_iff⟩
  have hd : ofText? e.text = some d := ofText?_eq_some_iff.mpr h
  have he : ofText? e.text = some e := ofText?_eq_some_iff.mpr rfl
  exact Option.some.inj (hd.symm.trans he)

example : ofText? "[]*map[string]int" = some (slice (struct "map[string]int")) := by decide

end SchemaStructs.TypeDesc
