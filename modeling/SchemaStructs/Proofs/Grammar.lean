import SchemaStructs.Proofs.RoundTrip

namespace SchemaStructs

namespace Segment

/-- Reads a token once, from its start on: `~1` is a `/`, `~0` is a `~`, and any other `~` stands
for itself. -/
def decode : List Char → List Char
  | '~' :: '1' :: cs => '/' :: decode cs
  | '~' :: '0' :: cs => '~' :: decode cs
  | c :: cs => c :: decode cs
  | [] => []

theorem replaceTilde_lone {d : Char} {cs : List Char} (h : cs.head? ≠ some d) (new : Char) :
    replaceTilde d new ('~' :: cs) = '~' :: replaceTilde d new cs := by
  cases cs with
  | nil => rfl
  | cons c cs =>
    have hc : c ≠ d := by simpa using h
    rw [replaceTilde_tilde, if_neg hc]

/-- The first pass puts no `0` behind a `~` that had none. -/
theorem head?_replaceTilde {cs : List Char} (h : cs.head? ≠ some '0') :
    (replaceTilde '1' '/' cs).head? ≠ some '0' := by
  cases cs with
  | nil => exact h
  | cons c cs =>
    by_cases ht : c = '~'
    · by_cases hd : cs.head? = some '1'
      · obtain ⟨ds, rfl⟩ := List.head?_eq_some_iff.mp hd
        simp [ht, replaceTilde_tilde]
      · simp [ht, replaceTilde_lone hd]
    · rw [replaceTilde_cons ht]
      exact h

/-- The two passes read what one pass reads. -/
theorem unescape_eq_decode (token : List Char) : unescape token = decode token := by
  fun_induction decode token with
  | case1 cs ih => simp [← ih, unescape, replaceTilde_tilde, replaceTilde_cons]
  | case2 cs ih => simp [← ih, unescape, replaceTilde_tilde, replaceTilde_cons]
  | case3 c cs hone hzero ih =>
    rw [← ih, unescape, unescape]
    by_cases ht : c = '~'
    · have hone' : cs.head? ≠ some '1' := by
        intro hd
        obtain ⟨ds, rfl⟩ := List.head?_eq_some_iff.mp hd
        exact hone ds ht rfl
      have hzero' : cs.head? ≠ some '0' := by
        intro hd
        obtain ⟨ds, rfl⟩ := List.head?_eq_some_iff.mp hd
        exact hzero ds ht rfl
      rw [ht, replaceTilde_lone hone', replaceTilde_lone (head?_replaceTilde hzero')]
    · rw [replaceTilde_cons ht, replaceTilde_cons ht]
  | case4 => rfl

example : decode "~01~~1~~~0~2~".toList = "~1~/~~~~2~".toList := by decide

inductive Spelled : List (List Char) → Segment → Prop
  | items : Spelled ["items".toList] .items
  | additional : Spelled ["additionalProperties".toList] .additional
  | property (token : List Char) :
    Spelled ["properties".toList, token] (.property (String.ofList (decode token)))
  | definition {keyword : List Char} (hk : Pointer.IsDefinitional keyword) (token : List Char) :
    Spelled [keyword, token] (.definition (String.ofList (decode token)))

theorem Spelled.ofTokens?_append {s : Segment} {piece : List (List Char)} (h : s.Spelled piece)
    (rest : List (List Char)) :
    Pointer.ofTokens? (piece ++ rest) = (Pointer.ofTokens? rest).map (s :: ·) := by
  cases h with
  | items => exact Pointer.ofTokens?_items rest
  | additional => exact Pointer.ofTokens?_additional rest
  | property token =>
    rw [← unescape_eq_decode]
    exact Pointer.ofTokens?_property token rest
  | definition hk token =>
    rw [← unescape_eq_decode]
    exact Pointer.ofTokens?_definitional hk token rest

end Segment

namespace Pointer

def Spelled (ts : List (List Char)) (p : Pointer) : Prop :=
  ∃ pieces : List (List (List Char)), ts = pieces.flatten ∧
    List.Forall₂ Segment.Spelled pieces p

theorem Spelled.nil : Spelled [] [] := ⟨[], rfl, .nil⟩

theorem Spelled.cons {s : Segment} {piece ts : List (List Char)} {p : Pointer}
    (hs : s.Spelled piece) (h : Spelled ts p) : Spelled (piece ++ ts) (s :: p) := by
  obtain ⟨pieces, rfl, hp⟩ := h
  exact ⟨piece :: pieces, rfl, .cons hs hp⟩

theorem Spelled.ofTokens? {ts : List (List Char)} {p : Pointer} (h : Spelled ts p) :
    Pointer.ofTokens? ts = some p := by
  obtain ⟨pieces, rfl, hp⟩ := h
  induction hp with
  | nil => rfl
  | cons hs _ ih =>
    rw [List.flatten_cons, hs.ofTokens?_append, ih]
    rfl

theorem spelled_of_ofTokens? {ts : List (List Char)} {p : Pointer}
    (h : ofTokens? ts = some p) : Spelled ts p := by
  induction ts using ofTokens?.induct generalizing p with
  | case1 =>
    cases h
    exact .nil
  | case2 ts ih =>
    rw [ofTokens?_items] at h
    obtain ⟨q, hq, rfl⟩ := Option.map_eq_some_iff.mp h
    exact .cons .items (ih hq)
  | case3 ts _ ih =>
    rw [ofTokens?_additional] at h
    obtain ⟨q, hq, rfl⟩ := Option.map_eq_some_iff.mp h
    exact .cons .additional (ih hq)
  | case4 keyword hi ha =>
    simp only [ofTokens?, if_neg hi, if_neg ha, reduceCtorEq] at h
  | case5 token ts _ _ ih =>
    rw [ofTokens?_property, Segment.unescape_eq_decode] at h
    obtain ⟨q, hq, rfl⟩ := Option.map_eq_some_iff.mp h
    exact .cons (.property token) (ih hq)
  | case6 keyword _ _ token ts _ hk ih =>
    rw [ofTokens?_definitional hk, Segment.unescape_eq_decode] at h
    obtain ⟨q, hq, rfl⟩ := Option.map_eq_some_iff.mp h
    exact .cons (.definition hk token) (ih hq)
  | case7 keyword hi ha token ts hp hd =>
    rw [ofTokens?_unknown hi ha hp hd] at h
    cases h

theorem ofTokens?_eq_some_iff {ts : List (List Char)} {p : Pointer} :
    ofTokens? ts = some p ↔ Spelled ts p :=
  ⟨spelled_of_ofTokens?, Spelled.ofTokens?⟩

theorem tokens_eq_splitOn (cs : List Char) : tokens cs = cs.splitOn '/' := by
  induction cs with
  | nil => rfl
  | cons c cs ih =>
    rw [tokens, ih, List.splitOn, List.splitOn, List.splitOnP_cons_eq_if_modifyHead]
    by_cases hc : c = '/'
    · simp [hc]
    · have hne := List.splitOnP_ne_nil (· == '/') cs
      cases hts : cs.splitOnP (· == '/') with
      | nil => exact absurd hts hne
      | cons t ts => simp [hc]

theorem slash_not_mem_of_mem_tokens {cs t : List Char} (h : t ∈ tokens cs) : '/' ∉ t := by
  induction cs generalizing t with
  | nil =>
    obtain rfl : t = [] := by simpa [tokens] using h
    exact List.not_mem_nil
  | cons c cs ih =>
    rw [tokens] at h
    split at h
    next =>
      obtain rfl | h := List.mem_cons.mp h
      · exact List.not_mem_nil
      · exact ih h
    next hc =>
      cases hts : tokens cs with
      | nil => exact absurd hts (tokens_ne_nil cs)
      | cons u us =>
        rw [hts] at h ih
        obtain rfl | h := List.mem_cons.mp h
        · have hu := ih List.mem_cons_self
          simpa [eq_comm, hc] using hu
        · exact ih (List.mem_cons_of_mem _ h)

theorem eq_intercalate_iff {cs : List Char} {ts : List (List Char)} (hne : ts ≠ [])
    (hslash : ∀ t ∈ ts, '/' ∉ t) : cs = ['/'].intercalate ts ↔ tokens cs = ts := by
  rw [tokens_eq_splitOn]
  constructor
  · rintro rfl
    exact List.splitOn_intercalate '/' hslash hne
  · rintro rfl
    exact (List.intercalate_splitOn '/').symm

theorem ofFragment?_slash (cs : List Char) (p : Pointer) :
    ofFragment? ('/' :: cs) = some p ↔
      cs = [] ∧ p = root ∨ ofTokens? (tokens cs) = some p := by
  cases cs with
  | nil =>
    -- A lone separator is the root, and the one empty token after it is no segment.
    have hnone : ofTokens? (tokens []) = none := rfl
    simp [ofFragment?, hnone, eq_comm]
  | cons c cs => simp [ofFragment?]

/-- Reading accepts exactly the grammar of fragments. A fragment is nothing or a lone separator, and
then it is the root, or it is a separator and then tokens between separators, which can be cut into
the segments of the pointer. The names in these are read in one pass. -/
theorem ofFragment?_eq_some_iff (cs : List Char) (p : Pointer) :
    ofFragment? cs = some p ↔
      (cs = [] ∨ cs = ['/']) ∧ p = root ∨
        ∃ ts, ts ≠ [] ∧ (∀ t ∈ ts, '/' ∉ t) ∧ cs = '/' :: ['/'].intercalate ts ∧
          Spelled ts p := by
  cases cs with
  | nil =>
    have hroot : ofFragment? [] = some root := rfl
    simp [hroot, eq_comm (a := root)]
  | cons c cs =>
    by_cases hc : c = '/'
    · rw [hc, ofFragment?_slash, ofTokens?_eq_some_iff]
      have hcut : Spelled (tokens cs) p ↔ ∃ ts, ts ≠ [] ∧ (∀ t ∈ ts, '/' ∉ t) ∧
          cs = ['/'].intercalate ts ∧ Spelled ts p := by
        constructor
        · intro h
          have hne := tokens_ne_nil cs
          have hslash : ∀ t ∈ tokens cs, '/' ∉ t := fun _ => slash_not_mem_of_mem_tokens
          exact ⟨tokens cs, hne, hslash, (eq_intercalate_iff hne hslash).mpr rfl, h⟩
        · rintro ⟨ts, hne, hslash, hcs, h⟩
          rwa [(eq_intercalate_iff hne hslash).mp hcs]
      simp [hcut]
    · have hnone : ofFragment? (c :: cs) = none := by
        rw [ofFragment?, if_neg hc]
        rintro rfl rfl
        exact hc rfl
      simp [hnone, hc]

end Pointer

end SchemaStructs
