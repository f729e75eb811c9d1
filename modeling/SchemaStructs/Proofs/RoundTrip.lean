import SchemaStructs.Proofs.Spelling

namespace SchemaStructs

namespace Segment

def escapeTildes (name : List Char) : List Char :=
  name.flatMap fun c => if c = '~' then ['~', '0'] else [c]

theorem replaceTilde_cons {c : Char} (h : c ≠ '~') (d new : Char) (cs : List Char) :
    replaceTilde d new (c :: cs) = c :: replaceTilde d new cs := by
  rw [replaceTilde]
  rintro _ _ rfl
  exact absurd rfl h

theorem replaceTilde_tilde (d new c : Char) (cs : List Char) :
    replaceTilde d new ('~' :: c :: cs) =
      if c = d then new :: replaceTilde d new cs else '~' :: replaceTilde d new (c :: cs) := by
  rw [replaceTilde]

/-- The first pass sets no `~` free: each one is followed by its `0` still. -/
theorem replaceTilde_escape (name : List Char) :
    replaceTilde '1' '/' (escape name) = escapeTildes name := by
  induction name with
  | nil => rfl
  | cons c cs ih =>
    have hcons : escape (c :: cs) = escapeChar c ++ escape cs := rfl
    rw [hcons, escapeTildes, List.flatMap_cons, ← escapeTildes, ← ih]
    by_cases ht : c = '~'
    · simp [ht, escapeChar, replaceTilde_tilde, replaceTilde_cons]
    · by_cases hs : c = '/'
      · simp [hs, escapeChar, replaceTilde_tilde]
      · simp [ht, hs, escapeChar, replaceTilde_cons]

theorem replaceTilde_escapeTildes (name : List Char) :
    replaceTilde '0' '~' (escapeTildes name) = name := by
  induction name with
  | nil => rfl
  | cons c cs ih =>
    rw [escapeTildes, List.flatMap_cons, ← escapeTildes]
    by_cases ht : c = '~'
    · simp [ht, replaceTilde_tilde, ih]
    · simp [ht, replaceTilde_cons, ih]

theorem unescape_escape (name : List Char) : unescape (escape name) = name := by
  rw [unescape, replaceTilde_escape, replaceTilde_escapeTildes]

theorem slash_not_mem_escape (name : List Char) : '/' ∉ escape name := by
  intro h
  obtain ⟨c, -, hc⟩ := List.mem_flatMap.mp h
  by_cases ht : c = '~'
  · simp [ht, escapeChar] at hc
  · by_cases hs : c = '/'
    · simp [hs, escapeChar] at hc
    · have hone : escapeChar c = [c] := by simp [escapeChar, ht, hs]
      rw [hone, List.mem_singleton] at hc
      exact hs hc.symm

def tokens : Segment → List (List Char)
  | definition name => ["definitions".toList, escape name.toList]
  | property name => ["properties".toList, escape name.toList]
  | items => ["items".toList]
  | additional => ["additionalProperties".toList]

theorem fragment_eq_flatMap (s : Segment) : s.fragment = s.tokens.flatMap ('/' :: ·) := by
  have hpair : ∀ a b : List Char, [a, b].flatMap ('/' :: ·) = '/' :: (a ++ '/' :: b) := by simp
  cases s with
  | items | additional => rfl
  | definition name | property name =>
    rw [tokens, hpair]
    rfl

theorem slash_not_mem_tokens (s : Segment) : ∀ t ∈ s.tokens, '/' ∉ t := by
  cases s <;> simp [tokens, slash_not_mem_escape]

end Segment

namespace Pointer

theorem tokens_of_not_mem {t : List Char} (h : '/' ∉ t) : tokens t = [t] := by
  induction t with
  | nil => rfl
  | cons c cs ih =>
    obtain ⟨hc, hcs⟩ : c ≠ '/' ∧ '/' ∉ cs := by
      simpa [eq_comm] using h
    rw [tokens, if_neg hc, ih hcs]

theorem tokens_append {t : List Char} (h : '/' ∉ t) (rest : List Char) :
    tokens (t ++ '/' :: rest) = t :: tokens rest := by
  induction t with
  | nil => simp [tokens]
  | cons c cs ih =>
    obtain ⟨hc, hcs⟩ : c ≠ '/' ∧ '/' ∉ cs := by
      simpa [eq_comm] using h
    rw [List.cons_append, tokens, if_neg hc, ih hcs]

theorem tokens_flatMap {t : List Char} {ts : List (List Char)} (h : ∀ u ∈ t :: ts, '/' ∉ u) :
    tokens (t ++ ts.flatMap ('/' :: ·)) = t :: ts := by
  induction ts generalizing t with
  | nil => simpa using tokens_of_not_mem (h t List.mem_cons_self)
  | cons u us ih =>
    rw [List.flatMap_cons, List.cons_append, tokens_append (h t List.mem_cons_self),
      ih fun v hv => h v (List.mem_cons_of_mem _ hv)]

theorem ofTokens?_property (name : List Char) (ts : List (List Char)) :
    ofTokens? ("properties".toList :: name :: ts) =
      (ofTokens? ts).map (.property (String.ofList (Segment.unescape name)) :: ·) := rfl

theorem ofTokens?_tokens (p : Pointer) : ofTokens? (p.flatMap Segment.tokens) = some p := by
  induction p with
  | nil => rfl
  | cons s p ih =>
    rw [List.flatMap_cons]
    cases s with
    | items =>
      rw [Segment.tokens, List.singleton_append, ofTokens?_items, ih]
      rfl
    | additional =>
      rw [Segment.tokens, List.singleton_append, ofTokens?_additional, ih]
      rfl
    | property name =>
      rw [Segment.tokens, List.cons_append, List.singleton_append, ofTokens?_property, ih,
        Segment.unescape_escape, String.ofList_toList]
      rfl
    | definition name =>
      rw [Segment.tokens, List.cons_append, List.singleton_append,
        ofTokens?_definitional (.inl rfl), ih, Segment.unescape_escape, String.ofList_toList]
      rfl

theorem fragment_eq_flatMap (p : Pointer) :
    p.fragment = (p.flatMap Segment.tokens).flatMap ('/' :: ·) := by
  rw [fragment, List.flatMap_assoc]
  congr 1
  funext s
  exact s.fragment_eq_flatMap

theorem ofFragment?_fragment (p : Pointer) : ofFragment? p.fragment = some p := by
  have hread := p.ofTokens?_tokens
  have hslash : ∀ t ∈ p.flatMap Segment.tokens, '/' ∉ t := by
    intro t ht
    obtain ⟨s, -, hs⟩ := List.mem_flatMap.mp ht
    exact s.slash_not_mem_tokens t hs
  rw [p.fragment_eq_flatMap]
  cases hts : p.flatMap Segment.tokens with
  | nil =>
    rw [hts] at hread
    exact hread
  | cons t ts =>
    rw [hts] at hread hslash
    rw [List.flatMap_cons, List.cons_append]
    rw [← tokens_flatMap hslash] at hread
    cases hcs : t ++ ts.flatMap ('/' :: ·) with
    | nil =>
      -- A lone separator means the root, but no segment is read off it.
      rw [hcs] at hread
      cases hread
    | cons c cs =>
      rw [hcs] at hread
      exact hread

/-- The text of a pointer leads back to it, whatever names are in it. So no two pointers have one
text, and the text of a pointer that was read stays as it is when it is read and written again. -/
theorem text_round_trip :
    (∀ p : Pointer, ∃ cs, p.text.toList = '#' :: cs ∧ ofFragment? cs = some p) ∧
      Function.Injective text ∧
      ∀ cs cs', (ofFragment? cs).map fragment = some cs' →
        (ofFragment? cs').map fragment = some cs' := by
  have hread : ∀ p : Pointer, ∃ cs, p.text.toList = '#' :: cs ∧ ofFragment? cs = some p :=
    fun p => ⟨p.fragment, String.toList_ofList, p.ofFragment?_fragment⟩
  refine ⟨hread, ?_, ?_⟩
  · intro p q h
    obtain ⟨cs, hcs, hp⟩ := hread p
    obtain ⟨cs', hcs', hq⟩ := hread q
    rw [h, hcs'] at hcs
    obtain ⟨-, rfl⟩ := List.cons.inj hcs
    exact Option.some.inj (hp.symm.trans hq)
  · intro cs cs' h
    obtain ⟨p, -, rfl⟩ := Option.map_eq_some_iff.mp h
    rw [p.ofFragment?_fragment]
    rfl

example : Pointer.text [.definition "", .property "~1/", .items, .definition "$defs"] =
    "#/definitions//properties/~01~1/items/definitions/$defs" := by
  decide +kernel

end Pointer

end SchemaStructs
