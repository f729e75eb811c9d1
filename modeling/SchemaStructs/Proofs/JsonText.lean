import Mathlib.Data.List.Basic
import Mathlib.Logic.Unique
import SchemaStructs.Json.Reader

namespace SchemaStructs.Json

theorem Fault.bind_eq_ok {α β : Type} {x : Except Fault α} {f : α → Except Fault β} {b : β} :
    (x >>= f) = .ok b ↔ ∃ a, x = .ok a ∧ f a = .ok b := by
  cases x <;> simp [bind, Except.bind]

theorem Fault.seq_eq_ok {β : Type} {x : Except Fault Unit} {f : Unit → Except Fault β} {b : β} :
    (x >>= f) = .ok b ↔ x = .ok () ∧ f () = .ok b :=
  Fault.bind_eq_ok.trans Unique.exists_iff

namespace Quoted

def IsContent (content : Except Fault String) : Prop := ∀ f, content = .error f → f = .malformed

def hexChar (n : Nat) : Char := Char.ofNat (if n < 10 then n + 48 else n + 87)

def quoteChar (c : Char) : List Char :=
  if c = '"' ∨ c = '\\' then ['\\', c]
  else if c.toNat < 0x20 then
    ['\\', 'u', '0', '0', hexChar (c.toNat / 16), hexChar (c.toNat % 16)]
  else [c]

def quote : Except Fault String → List Char
  | .ok s => '"' :: s.toList.flatMap quoteChar ++ ['"']
  | .error _ => ['"', '\\', 'u', 'd', '8', '0', '0', '"']

theorem hexDigit?_hexChar : ∀ n < 16, hexDigit? (hexChar n) = some n := by decide

theorem hexUnit?_hexChar {n : Nat} (h : n < 0x20) :
    hexUnit? '0' '0' (hexChar (n / 16)) (hexChar (n % 16)) = some n := by
  have hzero : hexDigit? '0' = some 0 := rfl
  have hhigh := hexDigit?_hexChar (n / 16) (by omega)
  have hlow := hexDigit?_hexChar (n % 16) (by omega)
  simp only [hexUnit?, hzero, hhigh, hlow]
  congr 1
  omega

theorem escaped?_self {c : Char} (h : c = '"' ∨ c = '\\') : escaped? c = some c := by
  rw [escaped?, if_pos]
  tauto

section
variable (cs : List Char)

theorem scan_close : scan ('"' :: cs) = closed [] cs := by
  rw [scan.eq_def]
  simp

theorem scan_char {c : Char} (hquote : c ≠ '"') (hescape : c ≠ '\\') (hc : ¬ c.toNat < 0x20) :
    scan (c :: cs) = push (.char c) (scan cs) := by
  rw [scan.eq_def]
  simp [hquote, hescape, hc]

theorem scan_escaped {e c : Char} (hu : e ≠ 'u') (he : escaped? e = some c) :
    scan ('\\' :: e :: cs) = push (.char c) (scan cs) := by
  rw [scan.eq_def]
  simp [hu, he]

theorem scan_unit {a b c d : Char} {n : Nat} (h : hexUnit? a b c d = some n) :
    scan ('\\' :: 'u' :: a :: b :: c :: d :: cs) = push (.unit n) (scan cs) := by
  rw [scan.eq_def]
  simp [h]

theorem spell_unit {n : Nat} (h : n < 0xD800) (ps : List Piece) :
    spell (.unit n :: ps) = (spell ps).map (Char.ofNat n :: ·) := by
  have hlow : isLow n = false := by
    simp only [isLow, Bool.and_eq_false_iff, decide_eq_false_iff_not]
    omega
  have hhigh : isHigh n = false := by
    simp only [isHigh, Bool.and_eq_false_iff, decide_eq_false_iff_not]
    omega
  rw [spell.eq_def]
  simp [hlow, hhigh]

theorem scan_quoteChar (c : Char) :
    ∃ piece, scan (quoteChar c ++ cs) = push piece (scan cs) ∧
      ∀ ps, spell (piece :: ps) = (spell ps).map (c :: ·) := by
  unfold quoteChar
  split
  next h =>
    have hu : c ≠ 'u' := by
      rintro rfl
      simp at h
    exact ⟨.char c, scan_escaped cs hu (escaped?_self h), fun ps => by rw [spell.eq_def]⟩
  next hquote =>
  split
  next h =>
    refine ⟨.unit c.toNat, scan_unit cs (hexUnit?_hexChar h), ?_⟩
    intro ps
    rw [spell_unit (by omega), Char.ofNat_toNat]
  next h =>
    obtain ⟨hquote, hescape⟩ := not_or.mp hquote
    exact ⟨.char c, scan_char cs hquote hescape h, fun ps => by rw [spell.eq_def]⟩

end

theorem scan_flatMap_quoteChar (cs rest : List Char) :
    ∃ pieces, scan (cs.flatMap quoteChar ++ '"' :: rest) = closed pieces rest ∧
      spell pieces = .ok cs := by
  induction cs with
  | nil => exact ⟨[], scan_close rest, by rw [spell.eq_def]⟩
  | cons c cs ih =>
    obtain ⟨pieces, hscan, hspell⟩ := ih
    obtain ⟨piece, hpiece, hmap⟩ := scan_quoteChar (cs.flatMap quoteChar ++ '"' :: rest) c
    refine ⟨piece :: pieces, ?_, ?_⟩
    · rw [List.flatMap_cons, List.append_assoc, hpiece, hscan, push]
    · rw [hmap, hspell]
      rfl

theorem scan_quote {content : Except Fault String} (h : IsContent content) (rest : List Char) :
    ∃ cs pieces, quote content ++ rest = '"' :: cs ∧ scan cs = closed pieces rest ∧
      Quoted.content pieces = content := by
  cases content with
  | ok s =>
    obtain ⟨pieces, hscan, hspell⟩ := scan_flatMap_quoteChar s.toList rest
    refine ⟨_, pieces, rfl, by simpa using hscan, ?_⟩
    simp [Quoted.content, hspell]
  | error f =>
    obtain rfl := h f rfl
    have hunit : hexUnit? 'd' '8' '0' '0' = some 0xD800 := rfl
    refine ⟨'\\' :: 'u' :: 'd' :: '8' :: '0' :: '0' :: '"' :: rest, [.unit 0xD800], rfl, ?_, ?_⟩
    · rw [scan_unit _ hunit, scan_close, push]
    · rw [Quoted.content, spell.eq_def]
      rfl

end Quoted

namespace Reading

inductive IsValue : Reading → Prop
  | null : IsValue null
  | bool (b : Bool) : IsValue (bool b)
  | number (fits : Bool) : IsValue (number fits)
  | text {content : Except Fault String} (h : Quoted.IsContent content) : IsValue (text content)
  | list {elements : List Reading} (h : ∀ r ∈ elements, IsValue r) : IsValue (list elements none)
  | object {members : List (Except Fault String × Reading)}
    (hkeys : ∀ m ∈ members, Quoted.IsContent m.1) (h : ∀ m ∈ members, IsValue m.2) :
    IsValue (object members none)

section
variable {n : Nat} {elements : List Reading} {members : List (Except Fault String × Reading)}
  {ending : Option Fault}

theorem closed_eq_ok : closed ending = .ok () ↔ ending = none := by
  cases ending <;> simp [closed]

theorem descend_eq_ok {inner : Nat} : descend n = .ok inner ↔ n = inner + 1 := by
  cases n <;> simp [descend]

theorem skimElements_eq_ok : skimElements elements = .ok () ↔ ∀ r ∈ elements, r.skim = .ok () := by
  induction elements with
  | nil => simp [skimElements]
  | cons r rs ih => simp [skimElements, Fault.seq_eq_ok, ih]

theorem skimMembers_eq_ok : skimMembers members = .ok () ↔ ∀ m ∈ members, m.2.skim = .ok () := by
  induction members with
  | nil => simp [skimMembers]
  | cons m ms ih => simp [skimMembers, Fault.seq_eq_ok, ih]

theorem vetElements_eq_ok :
    vetElements n elements = .ok () ↔ ∀ r ∈ elements, r.vet n = .ok () := by
  induction elements with
  | nil => simp [vetElements]
  | cons r rs ih => simp [vetElements, Fault.seq_eq_ok, ih]

theorem vetMembers_eq_ok : vetMembers n members = .ok () ↔
    ∀ m ∈ members, (∃ name, m.1 = .ok name) ∧ m.2.vet n = .ok () := by
  induction members with
  | nil => simp [vetMembers]
  | cons m ms ih => simp [vetMembers, @Fault.bind_eq_ok String, Fault.seq_eq_ok, ih, and_assoc]

theorem vet_list_eq_ok : (list elements ending).vet n = .ok () ↔
    ∃ inner, n = inner + 1 ∧ (∀ r ∈ elements, r.vet inner = .ok ()) ∧ ending = none := by
  simp [vet, @Fault.bind_eq_ok Nat, Fault.seq_eq_ok, descend_eq_ok, vetElements_eq_ok, closed_eq_ok]

theorem vet_object_eq_ok : (object members ending).vet n = .ok () ↔
    ∃ inner, n = inner + 1 ∧
      (∀ m ∈ members, (∃ name, m.1 = .ok name) ∧ m.2.vet inner = .ok ()) ∧ ending = none := by
  simp [vet, @Fault.bind_eq_ok Nat, Fault.seq_eq_ok, descend_eq_ok, vetMembers_eq_ok, closed_eq_ok]

end

theorem IsValue.skim {r : Reading} (h : r.IsValue) : r.skim = .ok () := by
  induction h with
  | null | bool | number | text => rfl
  | list _ ih => simpa [Reading.skim, Fault.seq_eq_ok, skimElements_eq_ok, closed] using ih
  | object _ _ ih => simpa [Reading.skim, Fault.seq_eq_ok, skimMembers_eq_ok, closed] using ih

mutual

/-- The reader that checks accepts nothing but values. -/
theorem isValue_of_vet : (r : Reading) → {n : Nat} → r.vet n = .ok () → r.IsValue
  | null, _, _ => .null
  | bool b, _, _ => .bool b
  | number fits, _, _ => .number fits
  | text (.ok _), _, _ => .text nofun
  | list elements ending, _, h => by
    obtain ⟨inner, -, helements, rfl⟩ := vet_list_eq_ok.mp h
    exact .list (isValue_of_vetElements elements helements)
  | object members ending, _, h => by
    obtain ⟨inner, -, hmembers, rfl⟩ := vet_object_eq_ok.mp h
    refine .object ?_ (isValue_of_vetMembers members fun m hm => (hmembers m hm).2)
    intro m hm
    obtain ⟨name, hname⟩ := (hmembers m hm).1
    rw [hname]
    nofun

theorem isValue_of_vetElements :
    (rs : List Reading) → {n : Nat} → (∀ r ∈ rs, r.vet n = .ok ()) → ∀ r ∈ rs, r.IsValue
  | [], _, _ => nofun
  | r :: rs, _, h =>
    List.forall_mem_cons.mpr ⟨isValue_of_vet r (List.forall_mem_cons.mp h).1,
      isValue_of_vetElements rs (List.forall_mem_cons.mp h).2⟩

theorem isValue_of_vetMembers :
    (ms : List (Except Fault String × Reading)) → {n : Nat} → (∀ m ∈ ms, m.2.vet n = .ok ()) →
      ∀ m ∈ ms, m.2.IsValue
  | [], _, _ => nofun
  | (_, r) :: ms, _, h =>
    List.forall_mem_cons.mpr ⟨isValue_of_vet r (List.forall_mem_cons.mp h).1,
      isValue_of_vetMembers ms (List.forall_mem_cons.mp h).2⟩

end

mutual

/-- A text that is read as a given value. All numbers that are in range look alike to the reader,
and so do all that are not. -/
def spelling : Reading → List Char
  | null => ['n', 'u', 'l', 'l']
  | bool true => ['t', 'r', 'u', 'e']
  | bool false => ['f', 'a', 'l', 's', 'e']
  | number true => ['0']
  | number false => ['1', 'e', '9', '9', '9']
  | text content => Quoted.quote content
  | list [] _ => ['[', ']']
  | list (r :: rs) _ => '[' :: (r.spelling ++ spellingElements rs)
  | object [] _ => ['\x7b', '\x7d']
  | object ((key, r) :: ms) _ =>
    '\x7b' :: (Quoted.quote key ++ ':' :: (r.spelling ++ spellingMembers ms))
  | fault _ _ => []

def spellingElements : List Reading → List Char
  | [] => [']']
  | r :: rs => ',' :: (r.spelling ++ spellingElements rs)

def spellingMembers : List (Except Fault String × Reading) → List Char
  | [] => ['\x7d']
  | (key, r) :: ms => ',' :: (Quoted.quote key ++ ':' :: (r.spelling ++ spellingMembers ms))

end

/-- What may follow a value: nothing in it goes on with a number. -/
def Ends : List Char → Prop
  | [] => True
  | c :: _ => c = ',' ∨ c = ']' ∨ c = '\x7d'

def ReadsBack (r : Reading) : Prop :=
  ∀ fuel rest, 2 * r.spelling.length ≤ fuel + 2 → Ends rest →
    readValue (fuel + 1) (r.spelling ++ rest) = (r, rest)

theorem skipSpace_cons {c : Char} (h : isSpace c = false) (cs : List Char) :
    skipSpace (c :: cs) = c :: cs := by
  rw [skipSpace, List.dropWhile_cons, h]
  rfl

theorem IsValue.spelling_head {r : Reading} (h : r.IsValue) :
    ∃ c cs, r.spelling = c :: cs ∧ isSpace c = false ∧ c ≠ ']' := by
  cases h with
  | null => exact ⟨_, _, rfl, rfl, by decide⟩
  | bool b => cases b <;> exact ⟨_, _, rfl, rfl, by decide⟩
  | number fits => cases fits <;> exact ⟨_, _, rfl, rfl, by decide⟩
  | @text content h => cases content <;> exact ⟨_, _, rfl, rfl, by decide⟩
  | @list elements h => cases elements <;> exact ⟨_, _, rfl, rfl, by decide⟩
  | @object members hkeys h => cases members <;> exact ⟨_, _, rfl, rfl, by decide⟩

theorem readsBack_null : ReadsBack null := by
  intro fuel rest _ _
  rw [readValue, spelling, List.cons_append, skipSpace_cons rfl]
  simp [readWord]

theorem readsBack_bool (b : Bool) : ReadsBack (bool b) := by
  intro fuel rest _ _
  cases b with
  | true =>
    rw [readValue, spelling, List.cons_append, skipSpace_cons rfl]
    simp [readWord]
  | false =>
    rw [readValue, spelling, List.cons_append, skipSpace_cons rfl]
    simp [readWord]

section
variable {rest : List Char} (hrest : Ends rest)

include hrest

theorem digits_append (ds : List Char) (hds : ∀ c ∈ ds, c.isDigit) :
    Numeral.digits (ds ++ rest) = (ds.map Numeral.digit, rest) := by
  have hend : rest.takeWhile Char.isDigit = [] ∧ rest.dropWhile Char.isDigit = rest := by
    cases rest with
    | nil => exact ⟨rfl, rfl⟩
    | cons c cs => obtain rfl | rfl | rfl := hrest <;> exact ⟨rfl, rfl⟩
  rw [Numeral.digits, List.takeWhile_append_of_pos hds, List.dropWhile_append_of_pos hds, hend.1,
    hend.2, List.append_nil]

theorem scanFraction_of_ends : Numeral.scanFraction rest = .ok ([], rest) := by
  cases rest with
  | nil => rfl
  | cons c cs => obtain rfl | rfl | rfl := hrest <;> rfl

theorem scanExponent_of_ends : Numeral.scanExponent rest = .ok (0, rest) := by
  cases rest with
  | nil => rfl
  | cons c cs => obtain rfl | rfl | rfl := hrest <;> rfl

end

theorem readsBack_number (fits : Bool) : ReadsBack (number fits) := by
  intro fuel rest _ hrest
  cases fits with
  | true =>
    have hdigits : Numeral.digits ('0' :: rest) = ([0], rest) :=
      digits_append hrest ['0'] (by simp)
    have hscan : Numeral.scan ('0' :: rest) = .ok (⟨[0], [], 0⟩, rest) := by
      simp [Numeral.scan, hdigits, scanFraction_of_ends hrest, scanExponent_of_ends hrest]
    have hfits : (Numeral.mk [0] [] 0).fits = true := by decide +kernel
    rw [readValue, spelling, List.cons_append, skipSpace_cons rfl]
    simp [readNumber, hscan, hfits]
  | false =>
    have hdigits : Numeral.digits ('9' :: '9' :: '9' :: rest) = ([9, 9, 9], rest) :=
      digits_append hrest ['9', '9', '9'] (by simp)
    have hexponent : Numeral.scanExponent ('e' :: '9' :: '9' :: '9' :: rest) = .ok (999, rest) := by
      simp [Numeral.scanExponent, hdigits, Numeral.valueFrom]
    have hscan : Numeral.scan ('1' :: 'e' :: '9' :: '9' :: '9' :: rest) =
        .ok (⟨[1], [], 999⟩, rest) := by
      have hwhole : Numeral.digits ('1' :: 'e' :: '9' :: '9' :: '9' :: rest) =
        ([1], 'e' :: '9' :: '9' :: '9' :: rest) := rfl
      simp [Numeral.scan, hwhole, Numeral.scanFraction, hexponent]
    have hfits : (Numeral.mk [1] [] 999).fits = false := by decide +kernel
    rw [readValue, spelling, List.cons_append, skipSpace_cons rfl]
    simp [readNumber, hscan, hfits]

theorem readsBack_text {content : Except Fault String} (h : Quoted.IsContent content) :
    ReadsBack (text content) := by
  intro fuel rest _ _
  obtain ⟨cs, pieces, hquote, hscan, hcontent⟩ := Quoted.scan_quote h rest
  rw [readValue, spelling, hquote, skipSpace_cons rfl]
  simp [readText, hscan, hcontent]

section
variable {fuel : Nat} {cs ds rest : List Char} {r : Reading} {rs : List Reading}
  {key : Except Fault String} {ms : List (Except Fault String × Reading)}

theorem readElements_last (h : readValue fuel cs = (r, ']' :: rest)) :
    readElements (fuel + 1) cs = ([r], none, rest) := by
  rw [readElements, h]
  rfl

theorem readElements_more (h : readValue fuel cs = (r, ',' :: ds))
    (hds : readElements fuel ds = (rs, none, rest)) :
    readElements (fuel + 1) cs = (r :: rs, none, rest) := by
  rw [readElements, h]
  simp [skipSpace_cons (c := ',') rfl, hds]

theorem readMembers_last (hkey : Quoted.IsContent key)
    (h : readValue fuel cs = (r, '\x7d' :: rest)) :
    readMembers (fuel + 1) (Quoted.quote key ++ ':' :: cs) = ([(key, r)], none, rest) := by
  obtain ⟨qs, pieces, hquote, hscan, hcontent⟩ := Quoted.scan_quote hkey (':' :: cs)
  rw [hquote, readMembers, skipSpace_cons rfl]
  simp [hscan, hcontent, skipSpace_cons (c := ':') rfl, h, skipSpace_cons (c := '\x7d') rfl]

theorem readMembers_more (hkey : Quoted.IsContent key) (h : readValue fuel cs = (r, ',' :: ds))
    (hds : readMembers fuel ds = (ms, none, rest)) :
    readMembers (fuel + 1) (Quoted.quote key ++ ':' :: cs) = ((key, r) :: ms, none, rest) := by
  obtain ⟨qs, pieces, hquote, hscan, hcontent⟩ := Quoted.scan_quote hkey (':' :: cs)
  rw [hquote, readMembers, skipSpace_cons rfl]
  simp [hscan, hcontent, skipSpace_cons (c := ':') rfl, h, skipSpace_cons (c := ',') rfl, hds]

end

theorem readElements_spelling {r : Reading} {rs : List Reading}
    (hback : ∀ x ∈ r :: rs, ReadsBack x) (fuel : Nat)
    (hfuel : 2 * (r.spelling.length + (spellingElements rs).length) ≤ fuel) (rest : List Char) :
    readElements fuel (r.spelling ++ (spellingElements rs ++ rest)) = (r :: rs, none, rest) := by
  induction rs generalizing r fuel with
  | nil =>
    simp only [spellingElements, List.length_singleton] at hfuel
    obtain ⟨fuel, rfl⟩ : ∃ n, fuel = n + 2 := ⟨fuel - 2, by omega⟩
    exact readElements_last (hback r List.mem_cons_self fuel _ (by omega) (.inr (.inl rfl)))
  | cons r' rs ih =>
    simp only [spellingElements, List.length_cons, List.length_append] at hfuel
    obtain ⟨fuel, rfl⟩ : ∃ n, fuel = n + 2 := ⟨fuel - 2, by omega⟩
    have hread := hback r List.mem_cons_self fuel
      (',' :: (r'.spelling ++ (spellingElements rs ++ rest))) (by omega) (.inl rfl)
    rw [spellingElements, List.cons_append, List.append_assoc]
    exact readElements_more hread
      (ih (fun x hx => hback x (List.mem_cons_of_mem _ hx)) _ (by omega))

theorem readMembers_spelling {key : Except Fault String} {r : Reading}
    {ms : List (Except Fault String × Reading)}
    (hkeys : ∀ m ∈ (key, r) :: ms, Quoted.IsContent m.1)
    (hback : ∀ m ∈ (key, r) :: ms, ReadsBack m.2) (fuel : Nat)
    (hfuel : 2 * (r.spelling.length + (spellingMembers ms).length) ≤ fuel) (rest : List Char) :
    readMembers fuel (Quoted.quote key ++ ':' :: (r.spelling ++ (spellingMembers ms ++ rest))) =
      ((key, r) :: ms, none, rest) := by
  have hr : ReadsBack r := hback _ List.mem_cons_self
  induction ms generalizing key r fuel with
  | nil =>
    simp only [spellingMembers, List.length_singleton] at hfuel
    obtain ⟨fuel, rfl⟩ : ∃ n, fuel = n + 2 := ⟨fuel - 2, by omega⟩
    exact readMembers_last (hkeys _ List.mem_cons_self)
      (hr fuel _ (by omega) (.inr (.inr rfl)))
  | cons m ms ih =>
    obtain ⟨key', r'⟩ := m
    simp only [spellingMembers, List.length_cons, List.length_append] at hfuel
    obtain ⟨fuel, rfl⟩ : ∃ n, fuel = n + 2 := ⟨fuel - 2, by omega⟩
    have hread := hr fuel
      (',' :: (Quoted.quote key' ++ ':' :: (r'.spelling ++ (spellingMembers ms ++ rest))))
      (by omega) (.inl rfl)
    rw [spellingMembers, List.cons_append, List.append_assoc, List.cons_append, List.append_assoc]
    exact readMembers_more (hkeys _ List.mem_cons_self) hread
      (ih (fun x hx => hkeys x (List.mem_cons_of_mem _ hx))
        (fun x hx => hback x (List.mem_cons_of_mem _ hx)) _ (by omega)
        (hback (key', r') (List.mem_cons_of_mem _ List.mem_cons_self)))

/-- Every value has a text that is read as that value. -/
theorem IsValue.readsBack {r : Reading} (h : r.IsValue) : r.ReadsBack := by
  induction h with
  | null => exact readsBack_null
  | bool b => exact readsBack_bool b
  | number fits => exact readsBack_number fits
  | text h => exact readsBack_text h
  | @list elements h ih =>
    intro fuel rest hfuel _
    cases elements with
    | nil =>
      rw [readValue, spelling, List.cons_append, skipSpace_cons rfl]
      rfl
    | cons r rs =>
      simp only [spelling, List.length_cons, List.length_append] at hfuel
      obtain ⟨c, cs, hcs, hspace, hc⟩ := (h r List.mem_cons_self).spelling_head
      have hread := readElements_spelling ih fuel (by omega) rest
      rw [hcs, List.cons_append] at hread
      rw [readValue, spelling, List.cons_append, skipSpace_cons rfl, List.append_assoc, hcs]
      simp [skipSpace_cons hspace, hc, hread]
  | @object members hkeys h ih =>
    intro fuel rest hfuel _
    cases members with
    | nil =>
      rw [readValue, spelling, List.cons_append, skipSpace_cons rfl]
      rfl
    | cons m ms =>
      obtain ⟨key, r⟩ := m
      simp only [spelling, List.length_cons, List.length_append] at hfuel
      have hread := readMembers_spelling hkeys ih fuel (by omega) rest
      obtain ⟨cs, -, hcs, -⟩ := Quoted.scan_quote (hkeys _ List.mem_cons_self)
        (':' :: (r.spelling ++ (spellingMembers ms ++ rest)))
      rw [hcs] at hread
      rw [readValue, spelling, List.cons_append, skipSpace_cons rfl, List.append_assoc,
        List.cons_append, List.append_assoc, hcs]
      simp [skipSpace_cons (c := '"') rfl, hread]

theorem IsValue.ofText_spelling {r : Reading} (h : r.IsValue) : ofText r.spelling = (r, []) := by
  have hread := h.readsBack (2 * r.spelling.length + 1) [] (by omega) trivial
  rwa [List.append_nil] at hread

end Reading

end SchemaStructs.Json
