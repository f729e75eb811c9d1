import Mathlib.Logic.Relation
import SchemaStructs.Proofs.Decoding
import SchemaStructs.Proofs.Step

namespace SchemaStructs

open Json Json.Reading

inductive Place where
  | schema
  | table
  | plain
  deriving DecidableEq

def Keyword.place : Keyword → Place
  | properties | definitions | defs => .table
  | additional | items => .schema
  | _ => .plain

namespace Place

def ofKeyword? (k : Option Keyword) : Place := (k.map Keyword.place).getD plain

def member (p : Place) (key : Except Fault String) : Place :=
  match p with
  | schema => ofKeyword? (Keyword.ofKey? key)
  | table => schema
  | plain => plain

def element (p : Place) (i : Nat) : Place :=
  match p with
  | schema => ofKeyword? Keyword.all[i]?
  | table | plain => plain

end Place

/-- One change to the text of a value at some place, where `n` lists and objects may still be
opened inside one another: the members of an object are brought into another order, or an object
that is no table gets one more member. -/
inductive Move : Place → Nat → Reading → Reading → Prop
  | permute {p : Place} {n : Nat} {ms ms' : List (Except Fault String × Reading)}
    {ending : Option Fault} (hkeys : (ms.filterMap fun m => m.1.toOption).Nodup)
    (h : ms.Perm ms') : Move p n (object ms ending) (object ms' ending)
  | insert {p : Place} {n : Nat} (xs : List (Except Fault String × Reading))
    {ys : List (Except Fault String × Reading)} {ending : Option Fault} {key : String}
    {r : Reading} (hp : p ≠ .table) (hkey : ∀ k : Keyword, k.text ≠ key)
    (hr : r.vet (n - 1) = .ok ()) :
    Move p n (object (xs ++ ys) ending) (object (xs ++ (.ok key, r) :: ys) ending)
  | member {p : Place} {n : Nat} (xs : List (Except Fault String × Reading))
    {ys : List (Except Fault String × Reading)} {ending : Option Fault}
    {key : Except Fault String} {r r' : Reading} (h : Move (p.member key) (n - 1) r r') :
    Move p n (object (xs ++ (key, r) :: ys) ending) (object (xs ++ (key, r') :: ys) ending)
  | element {p : Place} {n : Nat} (xs : List Reading) {ys : List Reading} {ending : Option Fault}
    {r r' : Reading} (h : Move (p.element xs.length) (n - 1) r r') :
    Move p n (list (xs ++ r :: ys) ending) (list (xs ++ r' :: ys) ending)

def Rearranged : Reading → Reading → Prop :=
  Relation.ReflTransGen (Move .schema Written.nestingLimit)

namespace Move

variable {p : Place} {n : Nat} {r r' : Reading}

theorem isValue (h : Move p n r r') (hr : r.IsValue) : r'.IsValue := by
  induction h with
  | permute _ hp =>
    cases hr with
    | object hkeys hvalues =>
      exact .object (fun m hm => hkeys m (hp.mem_iff.mpr hm)) fun m hm =>
        hvalues m (hp.mem_iff.mpr hm)
  | insert _ _ _ hv =>
    cases hr with
    | object hkeys hvalues =>
      exact .object (forall_mem_insert hkeys nofun)
        (forall_mem_insert hvalues (isValue_of_vet _ hv))
  | member _ _ ih =>
    cases hr with
    | object hkeys hvalues =>
      exact .object (forall_mem_replace hkeys id) (forall_mem_replace hvalues ih)
  | element _ _ ih =>
    cases hr with
    | list hvalues => exact .list (forall_mem_replace hvalues ih)

theorem vet (h : Move p n r r') (hr : r.vet n = .ok ()) : r'.vet n = .ok () := by
  induction h with
  | permute _ hp =>
    obtain ⟨inner, hn, hms, hending⟩ := vet_object_eq_ok.mp hr
    exact vet_object_eq_ok.mpr ⟨inner, hn, fun m hm => hms m (hp.mem_iff.mpr hm), hending⟩
  | insert _ _ _ hv =>
    obtain ⟨inner, rfl, hms, hending⟩ := vet_object_eq_ok.mp hr
    exact vet_object_eq_ok.mpr
      ⟨inner, rfl, forall_mem_insert hms ⟨⟨_, rfl⟩, hv⟩, hending⟩
  | member _ _ ih =>
    obtain ⟨inner, rfl, hms, hending⟩ := vet_object_eq_ok.mp hr
    exact vet_object_eq_ok.mpr
      ⟨inner, rfl, forall_mem_replace hms fun hm => ⟨hm.1, ih hm.2⟩, hending⟩
  | element _ _ ih =>
    obtain ⟨inner, rfl, hrs, hending⟩ := vet_list_eq_ok.mp hr
    exact vet_list_eq_ok.mpr ⟨inner, rfl, forall_mem_replace hrs ih, hending⟩

end Move

def Json.Reading.Opens : Reading → Prop
  | list _ _ | object _ _ => True
  | _ => False

namespace Written

section
variable {n : Nat} {k : Keyword} {r : Reading} {x : Setting}

theorem vetted_eq_ok {α : Type} {result : Except Fault α} {a : α} :
    vetted result = .ok a ↔ result = .ok a := by
  cases result <;> simp [vetted, Except.mapError]

theorem optionalText_ne_ok (hr : r.Opens) (content : Option String) :
    optionalText r ≠ .ok content := by
  cases r with
  | list | object => nofun
  | _ => cases hr

theorem not_opens_of_textElements {rs : List Reading} {ss : List String}
    (h : textElements rs = .ok ss) : ∀ r ∈ rs, ¬ r.Opens := by
  induction rs generalizing ss with
  | nil => nofun
  | cons r rs ih =>
    cases r with
    | text content =>
      obtain ⟨s, -, h⟩ := Fault.bind_eq_ok.mp h
      obtain ⟨ss', hss', -⟩ := Fault.bind_eq_ok.mp h
      exact List.forall_mem_cons.mpr ⟨fun hr => hr, ih hss'⟩
    | _ => cases h

theorem sets_table (hk : k.place = .table) :
    Sets n k r x ↔ ∃ nodes, Tabulates n r nodes ∧ .table nodes = x := by
  cases k with
  | properties | definitions | defs =>
    simp [Sets, Tabulates, assign, Fault.bind_eq_ok, pure, Except.pure, setting]
  | _ => cases hk

theorem sets_items (hr : r.Opens) :
    Sets n .items r x ↔ ∃ w, decode n r = .ok w ∧ .schema (some w.node) = x := by
  cases r with
  | list | object => simp [Sets, assign, Fault.bind_eq_ok, pure, Except.pure, setting]
  | _ => cases hr

theorem sets_additional (hr : r.Opens) : Sets n .additional r x ↔
    r.vet n = .ok () ∧ ∃ w, decode n r = .ok w ∧ .extra (some (.inr w.node)) = x := by
  cases r with
  | list | object =>
    simp [Sets, assign, @Fault.bind_eq_ok Written, Fault.seq_eq_ok, pure, Except.pure, setting,
      vetted_eq_ok, and_assoc]
  | _ => cases hr

theorem Sets.of_plain (h : Sets n k r x) (hk : k.place = .plain) (hr : r.Opens) :
    ∃ elements ending ss, r = list elements ending ∧ textElements elements = .ok ss := by
  obtain ⟨v, hv, -⟩ := h
  cases k with
  | title | description | id | legacyId | metaSchema | reference =>
    obtain ⟨content, hcontent, -⟩ := Fault.bind_eq_ok.mp hv
    exact absurd hcontent (optionalText_ne_ok hr content)
  | type =>
    obtain ⟨t, ht, -⟩ := Fault.bind_eq_ok.mp hv
    cases r with
    | list elements ending =>
      obtain ⟨-, ht⟩ := Fault.seq_eq_ok.mp ht
      obtain ⟨ss, hss, -⟩ := Synth.map_eq_ok (vetted_eq_ok.mp ht)
      exact ⟨elements, ending, ss, rfl, hss⟩
    | object =>
      obtain ⟨-, ht⟩ := Fault.seq_eq_ok.mp ht
      cases ht
    | _ => cases hr
  | required =>
    obtain ⟨ss, hss, -⟩ := Fault.bind_eq_ok.mp hv
    cases r with
    | list elements ending =>
      obtain ⟨-, -, hss⟩ := Fault.bind_eq_ok.mp hss
      obtain ⟨ss', hss', -⟩ := Fault.bind_eq_ok.mp hss
      exact ⟨elements, ending, ss', rfl, hss'⟩
    | object => cases hss
    | _ => cases hr
  | _ => cases hk

end

end Written

namespace Move

variable {p : Place} {n : Nat} {r r' : Reading}

theorem opens (h : Move p n r r') : r.Opens ∧ r'.Opens := by
  cases h <;> exact ⟨trivial, trivial⟩

theorem exists_opens {elements : List Reading} {ending : Option Fault}
    (h : Move p n (list elements ending) r') : ∃ r ∈ elements, r.Opens := by
  generalize hlist : list elements ending = r at h
  cases h with
  | element _ h =>
    obtain ⟨rfl, -⟩ := Reading.list.inj hlist
    exact ⟨_, by simp, h.opens.1⟩
  | _ => cases hlist

theorem not_sets_of_plain (h : Move p n r r') {k : Keyword} (hk : k.place = .plain) {x : Setting} :
    ¬ Written.Sets n k r x := by
  intro hset
  obtain ⟨elements, ending, ss, rfl, hss⟩ := hset.of_plain hk h.opens.1
  obtain ⟨r, hr, hopens⟩ := h.exists_opens
  exact Written.not_opens_of_textElements hss r hr hopens

end Move

def Place.Keeps (p : Place) (n : Nat) (r r' : Reading) : Prop :=
  match p with
  | schema => ∀ settings, Written.Decodes n r settings → Written.Decodes n r' settings
  | table => ∀ nodes, Written.Tabulates n r nodes → Written.Tabulates n r' nodes
  | plain => True

theorem Place.Keeps.sets {k : Keyword} {n : Nat} {r r' : Reading} (hkeeps : k.place.Keeps n r r')
    (hk : k.place ≠ .plain) (hopens : r.Opens) (hopens' : r'.Opens)
    (hvet : r.vet n = .ok () → r'.vet n = .ok ()) {x : Setting} (hset : Written.Sets n k r x) :
    Written.Sets n k r' x := by
  -- The two schemas are written differently, but the keyword is set to the node alone.
  have hschema : k.place = .schema → ∀ w, Written.decode n r = .ok w →
      ∃ w', Written.decode n r' = .ok w' ∧ w'.node = w.node := by
    intro hk w hw
    rw [hk] at hkeeps
    obtain ⟨w', hw', hsettings⟩ := hkeeps w.setting ⟨w, hw, rfl⟩
    exact ⟨w', hw', Written.node_eq_of_setting hsettings⟩
  cases hplace : k.place with
  | plain => exact absurd hplace hk
  | table =>
    rw [hplace] at hkeeps
    obtain ⟨nodes, hnodes, rfl⟩ := (Written.sets_table hplace).mp hset
    exact (Written.sets_table hplace).mpr ⟨nodes, hkeeps nodes hnodes, rfl⟩
  | schema =>
    cases k with
    | items =>
      obtain ⟨w, hw, rfl⟩ := (Written.sets_items hopens).mp hset
      obtain ⟨w', hw', hnode⟩ := hschema rfl w hw
      exact (Written.sets_items hopens').mpr ⟨w', hw', by rw [hnode]⟩
    | additional =>
      obtain ⟨hv, w, hw, rfl⟩ := (Written.sets_additional hopens).mp hset
      obtain ⟨w', hw', hnode⟩ := hschema rfl w hw
      exact (Written.sets_additional hopens').mpr ⟨hvet hv, w', hw', by rw [hnode]⟩
    | _ => cases hplace

namespace Move

variable {p : Place} {n : Nat} {r r' : Reading}

theorem sets {k : Keyword} (h : Move k.place n r r') (hkeeps : k.place.Keeps n r r') {x : Setting}
    (hset : Written.Sets n k r x) : Written.Sets n k r' x := by
  by_cases hk : k.place = .plain
  · exact absurd hset (h.not_sets_of_plain hk)
  · exact hkeeps.sets hk h.opens.1 h.opens.2 h.vet hset

theorem fits {key : Except Fault String} {settings : Keyword → Setting}
    (h : Move (Place.schema.member key) n r r') (hkeeps : (Place.schema.member key).Keeps n r r')
    (hr : r.IsValue) (hfits : Written.Fits n settings (key, r)) :
    Written.Fits n settings (key, r') := by
  obtain ⟨name, rfl, hname⟩ := hfits
  refine ⟨name, rfl, ?_⟩
  have hplace : Place.schema.member (.ok name) = Place.ofKeyword? (Keyword.ofText? name) := rfl
  rw [hplace] at h hkeeps
  cases hk : Keyword.ofText? name with
  | none => exact (h.isValue hr).skim
  | some k =>
    rw [hk] at h hkeeps hname
    exact h.sets hkeeps hname

/-- A change to the text of a value leaves the schema or the table that it is read as. -/
theorem keeps (h : Move p n r r') (hr : r.IsValue) : p.Keeps n r r' := by
  induction h with
  | @permute p n ms ms' ending hkeys hp =>
    cases p with
    | schema =>
      intro settings hdecodes
      exact hdecodes.members fun htells => htells.perm hp
    | table =>
      -- Of two entries with one name the later one counts, so here the keys have to differ.
      intro nodes hnodes
      exact hnodes.perm hp hkeys
    | plain => trivial
  | @insert p n xs ys ending key v hp hkey hv =>
    cases p with
    | schema =>
      intro settings hdecodes
      have hunknown : Keyword.ofText? key = none :=
        List.find?_eq_none.mpr fun k _ => by simpa using hkey k
      exact hdecodes.members fun htells => htells.insert hunknown (isValue_of_vet v hv).skim
    | table => exact absurd rfl hp
    | plain => trivial
  | @member p n xs ys ending key v v' h ih =>
    have hv : v.IsValue := by
      cases hr with
      | object _ hvalues => exact hvalues (key, v) (by simp)
    cases p with
    | schema =>
      intro settings hdecodes
      exact hdecodes.members fun htells => htells.replace (h.fits (ih hv) hv)
    | table =>
      intro nodes hnodes
      exact hnodes.replace (ih hv)
    | plain => trivial
  | @element p n xs ys ending v v' h ih =>
    have hv : v.IsValue := by
      cases hr with
      | list hvalues => exact hvalues v (by simp)
    cases p with
    | schema =>
      intro settings hdecodes
      obtain ⟨hlength, hdecodes⟩ := Written.decodes_list.mp hdecodes
      have hxs : xs.length < Keyword.all.length := by
        rw [List.length_append, List.length_cons] at hlength
        omega
      -- The element moves as the member does that it stands for.
      obtain ⟨k, before, after, hk, hspelled⟩ := Written.exists_spelledOut ys hxs
      have hplace : Place.schema.element xs.length = Place.schema.member (.ok k.text) := by
        simp [Place.element, Place.member, hk, Keyword.ofKey?, Except.toOption,
          Keyword.ofText?_text]
      rw [hplace] at h ih
      rw [hspelled] at hdecodes
      refine Written.decodes_list.mpr ⟨by simpa using hlength, ?_⟩
      rw [hspelled]
      exact hdecodes.members fun htells => htells.replace (h.fits (ih hv) hv)
    | table =>
      rintro nodes ⟨entries, hentries, -⟩
      cases hentries
    | plain => trivial

end Move

def Json.Spells (text : String) (r : Reading) : Prop :=
  ∃ rest, Reading.ofText text.toList = (r, rest) ∧ skipSpace rest = []

theorem Json.spells_spelling {r : Reading} (h : r.IsValue) :
    Spells (String.ofList r.spelling) r :=
  ⟨[], by rw [String.toList_ofList, h.ofText_spelling], rfl⟩

theorem Schema.ofText_of_spells {text : String} {r : Reading} (h : Spells text r) :
    Schema.ofText text = (Written.decode Written.nestingLimit r).map Written.schema := by
  obtain ⟨rest, hread, hrest⟩ := h
  simp only [Schema.ofText, Written.ofText, hread, hrest, List.isEmpty_nil, if_true]
  cases Written.decode Written.nestingLimit r <;> rfl

namespace Rearranged

variable {r r' : Reading}

theorem isValue (h : Rearranged r r') (hr : r.IsValue) : r'.IsValue := by
  induction h with
  | refl => exact hr
  | tail _ hmove ih => exact hmove.isValue ih

theorem decodes (h : Rearranged r r') (hr : r.IsValue) {settings : Keyword → Setting}
    (hdecodes : Written.Decodes Written.nestingLimit r settings) :
    Written.Decodes Written.nestingLimit r' settings := by
  induction h with
  | refl => exact hdecodes
  | tail hmoves hmove ih => exact hmove.keeps (Rearranged.isValue hmoves hr) settings ih

end Rearranged

/-- The schema that a text is decoded to does not depend on the order of the members of an object
that has no key twice, nor on members that are no keywords. -/
theorem Schema.ofText_rearranged {r r' : Reading} (hr : r.IsValue) (h : Rearranged r r')
    {text : String} (htext : Spells text r) {s : Schema} (hs : Schema.ofText text = .ok s) :
    (∃ text', Spells text' r') ∧ ∀ text', Spells text' r' → Schema.ofText text' = .ok s := by
  refine ⟨⟨_, spells_spelling (h.isValue hr)⟩, ?_⟩
  intro text' htext'
  rw [Schema.ofText_of_spells htext] at hs
  obtain ⟨w, hw, rfl⟩ := Synth.map_eq_ok hs
  obtain ⟨w', hw', hsettings⟩ := h.decodes hr ⟨w, hw, rfl⟩
  have hschema : w'.schema = w.schema := by
    simp only [Written.schema, Written.node_eq_of_setting hsettings]
  rw [Schema.ofText_of_spells htext', hw', ← hschema]
  rfl

namespace Sample

def typed (name : String) : Reading := object [(.ok "type", text (.ok name))] none

def order : Reading :=
  object
    [(.ok "title", text (.ok "Order")),
      (.ok "properties", object [(.ok "lines", typed "array"), (.ok "total", typed "number")] none),
      (.ok "additionalProperties", typed "object")] none

def annotatedOrder : Reading :=
  object
    [(.ok "title", text (.ok "Order")),
      (.ok "properties", object [(.ok "total", typed "number"), (.ok "lines", typed "array")] none),
      (.ok "additionalProperties",
        object [(.ok "x-note", list [null, number true] none),
          (.ok "type", text (.ok "object"))] none)] none

theorem order_rearranged : Rearranged order annotatedOrder := by
  have hproperties : Place.schema.member (.ok "properties") = .table := by decide +kernel
  have hadditional : Place.schema.member (.ok "additionalProperties") = .schema := by
    decide +kernel
  have hswap : Move .table 126
      (object [(.ok "lines", typed "array"), (.ok "total", typed "number")] none)
      (object [(.ok "total", typed "number"), (.ok "lines", typed "array")] none) :=
    .permute (by decide) (List.Perm.swap _ _ _)
  have hnote : Move .schema 126 (typed "object")
      (object [(.ok "x-note", list [null, number true] none),
        (.ok "type", text (.ok "object"))] none) :=
    .insert [] (by decide) (fun k => by cases k <;> decide +kernel) rfl
  refine .tail (.single (.member [(.ok "title", text (.ok "Order"))] (hproperties ▸ hswap))) ?_
  exact .member [_, _] (hadditional ▸ hnote)

end Sample

open Sample (order annotatedOrder order_rearranged)

theorem orders_decoded_alike :
    order.IsValue ∧ Rearranged order annotatedOrder ∧
      ∃ s, Schema.ofText (String.ofList order.spelling) = .ok s ∧
        Schema.ofText (String.ofList annotatedOrder.spelling) = .ok s ∧
        s.node.properties.map Prod.fst = ["lines", "total"] := by
  have hvalue : order.IsValue := isValue_of_vet order (n := 127) rfl
  have htext := spells_spelling hvalue
  have hdecode : (Written.decode Written.nestingLimit order).toOption.map
      (fun w => w.node.properties.map Prod.fst) = some ["lines", "total"] := by decide +kernel
  obtain ⟨w, hw, hproperties⟩ := Option.map_eq_some_iff.mp hdecode
  have hs : Schema.ofText (String.ofList order.spelling) = .ok w.schema := by
    rw [Schema.ofText_of_spells htext, Synth.eq_ok_of_toOption hw]
    rfl
  have hsame := (Schema.ofText_rearranged hvalue order_rearranged htext hs).2 _
    (spells_spelling (order_rearranged.isValue hvalue))
  exact ⟨hvalue, order_rearranged, w.schema, hs, hsame, hproperties⟩

end SchemaStructs
