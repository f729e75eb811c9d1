import SchemaStructs.Proofs.Grafting
import SchemaStructs.Proofs.Wire

namespace SchemaStructs

namespace Pointer

def IsDefinitional (token : List Char) : Prop :=
  token = "definitions".toList ∨ token = "$defs".toList

def SameStep (t t' : List Char) : Prop := t' = t ∨ IsDefinitional t ∧ IsDefinitional t'

/-- Tokens that are the same, except that where a keyword stands the step to a definition may be
spelled either way. A token that is no keyword may or may not be taken to have a name. -/
inductive Respells : List (List Char) → List (List Char) → Prop
  | nil : Respells [] []
  | lone {t t' : List Char} (h : SameStep t t') : Respells [t] [t']
  | bare {t : List Char} {ts ts' : List (List Char)} (hp : t ≠ "properties".toList)
    (hd : ¬ IsDefinitional t) (h : Respells ts ts') : Respells (t :: ts) (t :: ts')
  | named {t t' name : List Char} {ts ts' : List (List Char)} (hi : t ≠ "items".toList)
    (ha : t ≠ "additionalProperties".toList) (hs : SameStep t t') (h : Respells ts ts') :
    Respells (t :: name :: ts) (t' :: name :: ts')

theorem ofTokens?_items (ts : List (List Char)) :
    ofTokens? ("items".toList :: ts) = (ofTokens? ts).map (.items :: ·) := by
  cases ts <;> rfl

theorem ofTokens?_additional (ts : List (List Char)) :
    ofTokens? ("additionalProperties".toList :: ts) = (ofTokens? ts).map (.additional :: ·) := by
  cases ts <;> rfl

theorem ofTokens?_definitional {t : List Char} (h : IsDefinitional t) (name : List Char)
    (ts : List (List Char)) : ofTokens? (t :: name :: ts) =
      (ofTokens? ts).map (.definition (String.ofList (Segment.unescape name)) :: ·) := by
  obtain rfl | rfl := h <;> rfl

theorem ofTokens?_lone {t : List Char} (h : IsDefinitional t) : ofTokens? [t] = none := by
  obtain rfl | rfl := h <;> rfl

theorem ofTokens?_unknown {t : List Char} {ts : List (List Char)} (hi : t ≠ "items".toList)
    (ha : t ≠ "additionalProperties".toList) (hp : t ≠ "properties".toList)
    (hd : ¬ IsDefinitional t) : ofTokens? (t :: ts) = none := by
  rw [IsDefinitional] at hd
  cases ts with
  | nil => simp only [ofTokens?, if_neg hi, if_neg ha]
  | cons name ts => simp only [ofTokens?, if_neg hi, if_neg ha, if_neg hp, if_neg hd]

theorem Respells.ofTokens? {ts ts' : List (List Char)} (h : Respells ts ts') :
    Pointer.ofTokens? ts' = Pointer.ofTokens? ts := by
  induction h with
  | nil => rfl
  | lone h =>
    obtain rfl | ⟨ht, ht'⟩ := h
    · rfl
    · rw [ofTokens?_lone ht, ofTokens?_lone ht']
  | @bare t ts ts' hp hd _ ih =>
    by_cases hi : t = "items".toList
    · rw [hi, ofTokens?_items, ofTokens?_items, ih]
    by_cases ha : t = "additionalProperties".toList
    · rw [ha, ofTokens?_additional, ofTokens?_additional, ih]
    · rw [ofTokens?_unknown hi ha hp hd, ofTokens?_unknown hi ha hp hd]
  | named hi ha hs _ ih =>
    obtain rfl | ⟨ht, ht'⟩ := hs
    · simp only [Pointer.ofTokens?, if_neg hi, if_neg ha, ih]
    · rw [ofTokens?_definitional ht, ofTokens?_definitional ht', ih]

theorem tokens_ne_nil (cs : List Char) : tokens cs ≠ [] := by
  cases cs with
  | nil => exact List.cons_ne_nil _ _
  | cons c cs =>
    rw [tokens]
    split
    · exact List.cons_ne_nil _ _
    · split <;> exact List.cons_ne_nil _ _

theorem tokens_eq_singleton_iff {cs : List Char} : tokens cs = [[]] ↔ cs = [] := by
  constructor
  · intro h
    cases cs with
    | nil => rfl
    | cons c cs =>
      rw [tokens] at h
      split at h
      · exact absurd (List.cons.inj h).2 (tokens_ne_nil cs)
      · split at h <;> cases h
  · rintro rfl
    rfl

theorem Respells.eq_singleton_iff {ts ts' : List (List Char)} (h : Respells ts ts') :
    ts = [[]] ↔ ts' = [[]] := by
  cases h with
  | nil => rfl
  | lone h => obtain rfl | ⟨rfl | rfl, rfl | rfl⟩ := h <;> simp
  | bare hp hd h => cases h <;> simp
  | named => simp

theorem Respells.ofFragment? {cs cs' : List Char} (h : Respells (tokens cs) (tokens cs')) :
    Pointer.ofFragment? ('/' :: cs') = Pointer.ofFragment? ('/' :: cs) := by
  have hlone := h.eq_singleton_iff
  rw [tokens_eq_singleton_iff, tokens_eq_singleton_iff] at hlone
  cases cs with
  | nil => rw [hlone.mp rfl]
  | cons c cs =>
    cases cs' with
    | nil => cases hlone.mpr rfl
    | cons c' cs' => exact h.ofTokens?

end Pointer

def Reference.Respells (text text' : String) : Prop :=
  (split text').1 = (split text).1 ∧
    ((split text').2 = (split text).2 ∨
      ∃ cs cs', (split text).2 = '/' :: cs ∧ (split text').2 = '/' :: cs' ∧
        Pointer.Respells (Pointer.tokens cs) (Pointer.tokens cs'))

theorem Reference.Respells.ofFragment? {text text' : String} (h : Respells text text') :
    Pointer.ofFragment? (split text').2 = Pointer.ofFragment? (split text).2 := by
  obtain ⟨-, h | ⟨cs, cs', hcs, hcs', h⟩⟩ := h
  · rw [h]
  · rw [hcs, hcs', h.ofFragment?]

namespace Written

def plain (w : Written) : Written :=
  { w with
    properties := [], items := none, reference := none, definitions := [], defs := []
    additional := w.additional.map (Sum.map (fun b => b) fun _ => {}) }

structure Alike (v v' : Written) : Prop where
  plain : v'.plain = v.plain
  reference : Option.Rel Reference.Respells v.reference v'.reference

/-- Schemas that are written alike at every place, except that a definition may be under either
keyword, and that references may spell the keywords on their way differently. -/
def Respells (w w' : Written) : Prop := ∀ p, Option.Rel Alike (w.find? p) (w'.find? p)

theorem Alike.refl (v : Written) : v.Alike v := by
  refine ⟨rfl, ?_⟩
  cases v.reference with
  | none => exact .none
  | some text => exact .some ⟨rfl, .inl rfl⟩

theorem Respells.refl (w : Written) : w.Respells w := by
  intro p
  cases w.find? p with
  | none => exact .none
  | some v => exact .some (.refl v)

theorem Respells.intro {w w' : Written} (h : w.Alike w')
    (hchild : ∀ s, Option.Rel Respells (w.child? s) (w'.child? s)) : w.Respells w' := by
  intro p
  cases p with
  | nil => exact .some h
  | cons s p =>
    have hs := hchild s
    rw [find?, find?]
    generalize w.child? s = v, w'.child? s = v' at hs
    cases hs with
    | none => exact .none
    | some hv => exact hv p

theorem head_node (w : Written) :
    w.node.head = { w.plain.node.head with reference := w.reference } := by
  obtain ⟨title, description, id, legacyId, metaSchema, type, properties, additional, items,
    reference, required, definitions, defs⟩ := w
  match additional with
  | none | some (.inl _) | some (.inr _) => simp [node, plain, Node.head, untypedExtra]

end Written

theorem Entries.pairwise_keys {κ α : Type} [Key κ] {entries : Entries κ α}
    (h : Ascending entries) : (entries.map Prod.fst).Pairwise fun a b => Key.rank a b = .lt :=
  List.pairwise_map.mpr h

theorem Entries.keys_eq_of_isSome {κ α β : Type} [Key κ] {xs : Entries κ α} {ys : Entries κ β}
    (hx : Ascending xs) (hy : Ascending ys) (h : ∀ k, (get? k xs).isSome = (get? k ys).isSome) :
    xs.map Prod.fst = ys.map Prod.fst := by
  have hmem : ∀ k, k ∈ xs.map Prod.fst ↔ k ∈ ys.map Prod.fst := by
    intro k
    rw [← not_iff_not, ← get?_eq_none_iff, ← get?_eq_none_iff, ← Option.not_isSome_iff_eq_none,
      ← Option.not_isSome_iff_eq_none, h k]
  -- Both lists ascend, so they are the same as soon as they have the same members.
  have hperm := (List.perm_ext_iff_of_nodup (nodup_keys hx) (nodup_keys hy)).mpr hmem
  refine hperm.eq_of_pairwise ?_ (pairwise_keys hx) (pairwise_keys hy)
  intro a b _ _ hab hba
  exact absurd rfl (Key.ne_of_rank_lt (Key.rank_lt_trans hab hba))

namespace Node

def SameShape (n n' : Node) : Prop := ∀ p, (n.lookup p).isSome = (n'.lookup p).isSome

section
variable {n n' c c' : Node} {s : Segment} (h : n.SameShape n')

include h

theorem SameShape.isSome_child? (s : Segment) : (n.child? s).isSome = (n'.child? s).isSome := by
  have hs := h [s]
  simpa [lookup_cons] using hs

theorem SameShape.child (hc : n.child? s = some c) (hc' : n'.child? s = some c') :
    c.SameShape c' := by
  intro p
  have hp := h (s :: p)
  rwa [lookup_cons, lookup_cons, hc, hc'] at hp

theorem SameShape.keys (hn : n.Canonical) (hn' : n'.Canonical) :
    n.children.map Prod.fst = n'.children.map Prod.fst := by
  cases n with
  | mk head cs =>
    cases n' with
    | mk head' cs' =>
      exact Entries.keys_eq_of_isSome (canonical_mk.mp hn).1 (canonical_mk.mp hn').1
        h.isSome_child?

theorem SameShape.children (hn : n.Canonical) (hn' : n'.Canonical) :
    List.Forall₂ (fun e e' => e.1 = e'.1 ∧ e.2.Canonical ∧ e'.2.Canonical ∧ e.2.SameShape e'.2)
      n.children n'.children := by
  have hkeys : List.Forall₂ (fun e e' : Segment × Node => e.1 = e'.1) n.children n'.children := by
    rw [← List.forall₂_map_right_iff, ← List.forall₂_map_left_iff, h.keys hn hn']
    exact List.forall₂_refl _
  refine (forall₂_mem hkeys).imp ?_
  rintro ⟨s, c⟩ ⟨s', c'⟩ ⟨hm, hm', rfl⟩
  cases n with
  | mk head cs =>
    cases n' with
    | mk head' cs' =>
      obtain ⟨hcs, -, hc⟩ := canonical_mk.mp hn
      obtain ⟨hcs', -, hc'⟩ := canonical_mk.mp hn'
      exact ⟨rfl, hc _ hm, hc' _ hm',
        h.child (Entries.get?_of_mem hcs hm) (Entries.get?_of_mem hcs' hm')⟩

end

mutual

theorem index_of_sameShape : (n n' : Node) → n.Canonical → n'.Canonical → n.SameShape n' →
    n'.index = n.index ∧ n'.unnamedDefinition? = n.unnamedDefinition?
  | mk _ cs, mk _ cs', hn, hn', h => by
    rw [index, index, unnamedDefinition?, unnamedDefinition?]
    exact indexChildren_of_sameShape cs cs' (h.children hn hn')

theorem indexChildren_of_sameShape : (cs cs' : List (Segment × Node)) →
    List.Forall₂ (fun e e' => e.1 = e'.1 ∧ e.2.Canonical ∧ e'.2.Canonical ∧ e.2.SameShape e'.2)
      cs cs' →
    indexChildren cs' = indexChildren cs ∧ unnamedInChildren? cs' = unnamedInChildren? cs
  | [], [], _ => ⟨rfl, rfl⟩
  | (s, n) :: cs, (s', n') :: cs', h => by
    obtain ⟨⟨hs, hn, hn', hshape⟩, hrest⟩ := List.forall₂_cons.mp h
    obtain ⟨hindex, hunnamed⟩ := index_of_sameShape n n' hn hn' hshape
    obtain ⟨hindexes, hunnameds⟩ := indexChildren_of_sameShape cs cs' hrest
    obtain rfl : s = s' := hs
    simp only [indexChildren, unnamedInChildren?, hindex, hunnamed, hindexes, hunnameds, and_self]

end

end Node

def Document.Respells (d d' : Document) : Prop :=
  d'.names = d.names ∧
    ∃ w w' : Written, d.root = w.schema ∧ d'.root = w'.schema ∧ w.Respells w'

namespace Written.Respells

variable {w w' : Written} (h : w.Respells w')

include h

theorem sameShape : w.node.SameShape w'.node := by
  intro p
  have hp := h p
  rw [lookup_node, lookup_node]
  generalize w.find? p = v, w'.find? p = v' at hp
  cases hp <;> rfl

theorem head {p : Pointer} {n n' : Node} (hn : w.node.lookup p = some n)
    (hn' : w'.node.lookup p = some n') :
    n'.head = { n.head with reference := n'.head.reference } ∧
      Option.Rel Reference.Respells n.head.reference n'.head.reference := by
  rw [lookup_node] at hn hn'
  obtain ⟨v, hv, rfl⟩ := Option.map_eq_some_iff.mp hn
  obtain ⟨v', hv', rfl⟩ := Option.map_eq_some_iff.mp hn'
  have hp := h p
  rw [hv, hv'] at hp
  cases hp with
  | some halike =>
    rw [head_node v, head_node v', halike.plain]
    exact ⟨rfl, halike.reference⟩

theorem alike {p : Pointer} {n n' : Node} (hn : w.node.lookup p = some n)
    (hn' : w'.node.lookup p = some n') : n.Alike n' := by
  obtain ⟨hhead, hreference⟩ := h.head hn hn'
  have hshape : n.SameShape n' := by
    intro q
    have hq := h.sameShape (p ++ q)
    rwa [Node.lookup_append, Node.lookup_append, hn, hn'] at hq
  have hcanonical := Node.canonical_lookup w.canonical_node hn
  have hcanonical' := Node.canonical_lookup w'.canonical_node hn'
  exact
    { title := by rw [hhead]
      description := by rw [hhead]
      type := by rw [hhead]
      untypedExtra := by rw [hhead]
      required := by rw [hhead]
      reference := by
        generalize n.head.reference = r, n'.head.reference = r' at hreference
        cases hreference <;> rfl
      properties := by
        rw [Node.keys_properties, Node.keys_properties, hshape.keys hcanonical hcanonical']
      items := hshape.isSome_child? .items
      extra := hshape.isSome_child? .additional }

theorem ofSchema (source : String) :
    (∃ d d', Document.ofSchema source w.schema = .ok d ∧
      Document.ofSchema source w'.schema = .ok d' ∧ d.Respells d' ∧
      d'.definitions = d.definitions) ∨
    ∃ e, Document.ofSchema source w.schema = .error e ∧
      Document.ofSchema source w'.schema = .error e := by
  obtain ⟨hindex, hunnamed⟩ :=
    Node.index_of_sameShape _ _ w.canonical_node w'.canonical_node h.sameShape
  have hid : Document.declaredId? w'.schema = Document.declaredId? w.schema := by
    have hhead : w'.node.head.id = w.node.head.id := by
      rw [(h.head (p := []) rfl rfl).1]
    rw [Document.declaredId?, Document.declaredId?, schema, schema, hhead]
  unfold Document.ofSchema
  rw [hid, show w'.schema.node.unnamedDefinition? = w.schema.node.unnamedDefinition? from hunnamed]
  cases w.schema.node.unnamedDefinition? with
  | some p => exact .inr ⟨_, rfl, rfl⟩
  | none => exact .inl ⟨_, _, rfl, rfl, ⟨rfl, w, w', rfl, rfl, h⟩, hindex⟩

end Written.Respells

section
variable {documents documents' : List Document}
  (h : List.Forall₂ Document.Respells documents documents')

include h

theorem sameNames_of_respells : SameNames documents documents' := by
  induction h with
  | nil => rfl
  | cons hd _ ih => exact congrArg₂ List.cons hd.1 ih

theorem getElem?_of_respells (i : Nat) :
    Option.Rel Document.Respells documents[i]? documents'[i]? := by
  induction h generalizing i with
  | nil => simp
  | cons hd _ ih =>
    cases i with
    | zero => exact .some hd
    | succ i => simpa using ih i

theorem nodeAt?_of_respells (l : Location) :
    (Reference.nodeAt? documents l = none ∧ Reference.nodeAt? documents' l = none) ∨
    ∃ w w' n n', Written.Respells w w' ∧ w.node.lookup l.pointer = some n ∧
      w'.node.lookup l.pointer = some n' ∧ Reference.nodeAt? documents l = some n ∧
      Reference.nodeAt? documents' l = some n' := by
  have hd := getElem?_of_respells h l.document
  unfold Reference.nodeAt?
  generalize documents[l.document]? = d, documents'[l.document]? = d' at hd
  cases hd with
  | none => exact .inl ⟨rfl, rfl⟩
  | some hd =>
    obtain ⟨-, w, w', hw, hw', hr⟩ := hd
    simp only [Option.bind_some, Document.lookup, hw, hw']
    obtain hnone | ⟨n, n', hn, hn'⟩ := isSome_eq_cases (hr.sameShape l.pointer)
    · exact .inl hnone
    · exact .inr ⟨w, w', n, n', hr, hn, hn', hn, hn'⟩

theorem Job.mirrors_of_respells (options : Options) :
    Job.Mirrors ⟨documents, options⟩ ⟨documents', options⟩ (fun _ => True) (fun _ _ => True) where
  options := rfl
  names := sameNames_of_respells h
  root := fun _ => trivial
  join := fun _ _ _ => trivial
  alike := by
    intro l n n' _ hn hn'
    obtain ⟨hnone, -⟩ | ⟨w, w', m, m', hr, hm, hm', hl, hl'⟩ := nodeAt?_of_respells h l
    · cases hnone.symm.trans hn
    · cases hl.symm.trans hn
      cases hl'.symm.trans hn'
      exact hr.alike hm hm'
  found := by
    intro l _
    change (Reference.nodeAt? documents l).isSome = (Reference.nodeAt? documents' l).isSome
    obtain ⟨hl, hl'⟩ | ⟨w, w', m, m', -, -, -, hl, hl'⟩ := nodeAt?_of_respells h l
    · rw [hl, hl']
    · rw [hl, hl']
      rfl
  aim := by
    intro l n n' text text' _ hn hn' ht ht'
    refine ⟨?_, fun _ _ => trivial, fun _ _ => trivial⟩
    obtain ⟨hnone, -⟩ | ⟨w, w', m, m', hr, hm, hm', hl, hl'⟩ := nodeAt?_of_respells h l
    · cases hnone.symm.trans hn
    · cases hl.symm.trans hn
      cases hl'.symm.trans hn'
      have hreference := (hr.head hm hm').2
      rw [ht, ht'] at hreference
      cases hreference with
      | some hrel => exact (sameNames_of_respells h).aim hrel.1 hrel.ofFragment? _
  refl := fun _ => trivial

end

/-- `definitions` and `$defs` are two spellings of one keyword. Schemas that are written alike up to
the spelling are loaded alike, with the same definitions, and compile alike. Where a name is under
both keywords, pointers and references lead to the definition under `definitions`. -/
theorem compile_respelled :
    (∀ (source : String) (w w' : Written), w.Respells w' →
      (∃ d d', Document.ofSchema source w.schema = .ok d ∧
        Document.ofSchema source w'.schema = .ok d' ∧ d.Respells d' ∧
        d'.definitions = d.definitions) ∨
      ∃ e, Document.ofSchema source w.schema = .error e ∧
        Document.ofSchema source w'.schema = .error e) ∧
    (∀ (options : Options) (documents documents' : List Document),
      List.Forall₂ Document.Respells documents documents' →
      (∃ m, (compile options documents).result = .ok m ∧
        (compile options documents').result = .ok m) ∨
      ∃ e e', (compile options documents).result = .error e ∧
        (compile options documents').result = .error e') ∧
    ∀ (w v u : Written) (p q : Pointer) (name : String), w.find? p = some v →
      Entries.last? name v.definitions = some u →
      w.node.lookup (p ++ .definition name :: q) = u.node.lookup q ∧
      ∀ (documents : List Document) (d : Document) (i j : Nat) (text : String) (n : Node),
        documents[i]? = some d → d.root = w.schema →
        Reference.aim documents text j = .ok ⟨i, p ++ .definition name :: q⟩ →
        (Reference.resolve documents text j = .ok ⟨⟨i, p ++ .definition name :: q⟩, n⟩ ↔
          u.node.lookup q = some n) := by
  refine ⟨fun source w w' h => h.ofSchema source, ?_, ?_⟩
  · intro options documents documents' h
    obtain hok | ⟨e, e', -, he, he'⟩ := (Job.mirrors_of_respells h options).compile
    · exact .inl hok
    · exact .inr ⟨e, e', he, he'⟩
  · intro w v u p q name hv hu
    have hlookup := Written.lookup_definition (q := q) hv hu
    refine ⟨hlookup, ?_⟩
    intro documents d i j text n hd hroot haim
    rw [Reference.resolve_eq_aim, haim]
    simp only [Reference.nodeAt?_of_document hd, Document.lookup, hroot, Written.schema, hlookup]
    cases u.node.lookup q with
    | none => simp
    | some m => simp

namespace Sample

def tags : Written where
  items := some (referring "#/definitions/tag")
  definitions := [("tag", named "object")]

def respelledTags : Written where
  items := some (referring "#/$defs/tag")
  defs := [("tag", named "object")]

def ambiguousTags : Written := { tags with defs := [("tag", named "integer")] }

theorem referring_respells :
    (referring "#/definitions/tag").Respells (referring "#/$defs/tag") := by
  have htokens : Pointer.Respells (Pointer.tokens "definitions/tag".toList)
      (Pointer.tokens "$defs/tag".toList) :=
    .named (by decide) (by decide) (.inr ⟨.inl rfl, .inr rfl⟩) .nil
  have htext : Reference.Respells "#/definitions/tag" "#/$defs/tag" :=
    ⟨by decide +kernel, .inr ⟨_, _, by decide +kernel, by decide +kernel, htokens⟩⟩
  refine Written.Respells.intro ⟨rfl, .some htext⟩ ?_
  intro s
  cases s <;> exact .none

theorem tags_respells : tags.Respells respelledTags := by
  refine Written.Respells.intro ⟨rfl, .none⟩ ?_
  intro s
  cases s with
  | definition name =>
    by_cases h : Key.rank name "tag" = .eq
    · simpa [Written.child?, tags, respelledTags, Entries.last?, h] using .refl _
    · simp [Written.child?, tags, respelledTags, Entries.last?, h]
  | property name => exact .none
  | items => exact .some referring_respells
  | additional => exact .none

theorem tags_compile_alike :
    (∃ d d', Document.ofSchema "tags" tags.schema = .ok d ∧
      Document.ofSchema "tags" respelledTags.schema = .ok d' ∧ d.Respells d' ∧
      d'.definitions = d.definitions) ∧
    (∃ m, (compile {} [⟨"tags", [], tags.schema⟩]).result = .ok m ∧
      (compile {} [⟨"tags", [], respelledTags.schema⟩]).result = .ok m) ∧
    Reference.resolve [⟨"tags", [], ambiguousTags.schema⟩] "#/$defs/tag" 0 =
      .ok ⟨⟨0, [.definition "tag"]⟩, (named "object").node⟩ := by
  have hdocuments : List.Forall₂ Document.Respells [⟨"tags", [], tags.schema⟩]
      [⟨"tags", [], respelledTags.schema⟩] :=
    .cons ⟨rfl, _, _, rfl, rfl, tags_respells⟩ .nil
  refine ⟨(compile_respelled.1 "tags" _ _ tags_respells).resolve_right ?_,
    (compile_respelled.2.1 {} _ _ hdocuments).resolve_right ?_, ?_⟩
  · rintro ⟨e, he, -⟩
    have hok : (Document.ofSchema "tags" tags.schema).isOk = true := by decide +kernel
    rw [he] at hok
    cases hok
  · rintro ⟨e, e', he, -⟩
    have hok : (compile {} [⟨"tags", [], tags.schema⟩]).result.isOk = true := by decide +kernel
    rw [he] at hok
    cases hok
  · have hdefinition : Entries.last? "tag" ambiguousTags.definitions = some (named "object") := by
      simp [ambiguousTags, tags, Entries.last?, Key.rank_self]
    refine ((compile_respelled.2.2 ambiguousTags _ _ [] [] "tag" rfl hdefinition).2 _ _ 0 0 _ _
      rfl rfl ?_).mpr rfl
    decide +kernel

end Sample

end SchemaStructs
