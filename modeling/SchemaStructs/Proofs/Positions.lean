import SchemaStructs.Document.Load
import SchemaStructs.Proofs.Rearrangement

namespace SchemaStructs

open Json Json.Reading

/-- Values that are as good as no value for a keyword, or say all that it has to say. They stand
where a schema might, and are none. -/
def Keyword.waives : Keyword → Reading → Bool
  | items, .null | additional, .null | additional, .bool _ => true
  | _, _ => false

theorem Keyword.waives_of_opens (k : Keyword) {r : Reading} (h : r.Opens) :
    k.waives r = false := by
  cases r with
  | list | object => cases k <;> rfl
  | _ => cases h

namespace Place

def keyword? (p : Place) (k : Option Keyword) : Option Keyword :=
  match p with
  | schema => k
  | table | plain => none

theorem element_ne_schema {p : Place} (hp : p ≠ schema) (i : Nat) : p.element i = plain := by
  cases p with
  | schema => exact absurd rfl hp
  | table | plain => rfl

theorem exists_member {xs ys : List Reading} {v : Reading}
    (h : (xs ++ v :: ys).length ≤ Keyword.all.length) :
    ∃ k before after, Keyword.all[xs.length]? = some k ∧
      schema.element xs.length = schema.member (.ok k.text) ∧
      ∀ r, Written.spelledOut Keyword.all (xs ++ r :: ys) = before ++ (.ok k.text, r) :: after := by
  have hxs : xs.length < Keyword.all.length := by
    rw [List.length_append, List.length_cons] at h
    omega
  obtain ⟨k, before, after, hk, hspelled⟩ := Written.exists_spelledOut ys hxs
  refine ⟨k, before, after, hk, ?_, hspelled⟩
  simp [element, member, hk, Keyword.ofKey?, Except.toOption, Keyword.ofText?_text]

end Place

/-- `context` has a gap in it. A value in the gap is at the place `p`, as the value of the keyword
`k` if there is one. -/
inductive Surrounds : (p : Place) → (k : Option Keyword) → (context : Reading → Reading) → Prop
  | root : Surrounds .schema none id
  | member {p : Place} {k : Option Keyword} {context : Reading → Reading}
    (h : Surrounds p k context) (key : Except Fault String)
    (xs ys : List (Except Fault String × Reading)) (ending : Option Fault) :
    Surrounds (p.member key) (p.keyword? (Keyword.ofKey? key))
      fun v => context (object (xs ++ (key, v) :: ys) ending)
  | element {p : Place} {k : Option Keyword} {context : Reading → Reading}
    (h : Surrounds p k context) (xs ys : List Reading) (ending : Option Fault) :
    Surrounds (p.element xs.length) (p.keyword? Keyword.all[xs.length]?)
      fun v => context (list (xs ++ v :: ys) ending)

namespace Written

variable {n : Nat} {k : Keyword} {r : Reading} {x : Setting}

theorem form_of_decode {w : Written} (h : decode n r = .ok w) :
    (∃ ms ending, r = object ms ending) ∨
      ∃ rs ending, r = list rs ending ∧ rs.length ≤ Keyword.all.length := by
  cases r with
  | object ms ending => exact .inl ⟨ms, ending, rfl⟩
  | list rs ending => exact .inr ⟨rs, ending, rfl, (decodes_list.mp ⟨w, h, rfl⟩).1⟩
  | _ => cases h

theorem Sets.exists_decode (h : Sets n k r x) (hk : k.place = .schema) (hr : k.waives r = false) :
    ∃ w, decode n r = .ok w := by
  obtain ⟨v, hv, -⟩ := h
  cases k with
  | items =>
    cases r with
    | null => cases hr
    | _ =>
      obtain ⟨w, hw, -⟩ := Fault.bind_eq_ok.mp hv
      exact ⟨w, hw⟩
  | additional =>
    cases r with
    | null | bool => cases hr
    | _ =>
      obtain ⟨-, hv⟩ := Fault.seq_eq_ok.mp hv
      obtain ⟨w, hw, -⟩ := Fault.bind_eq_ok.mp hv
      exact ⟨w, vetted_eq_ok.mp hw⟩
  | _ => cases hk

end Written

def Place.Accepts (p : Place) (n : Nat) (r : Reading) : Prop :=
  match p with
  | schema => ∃ w, Written.decode n r = .ok w
  | table => ∃ entries, Written.decodeTable n r = .ok entries
  | plain => True

namespace Place

variable {p : Place} {n : Nat} {v : Reading} {ending : Option Fault}

theorem Accepts.member {key : Except Fault String}
    {xs ys : List (Except Fault String × Reading)}
    (h : p.Accepts n (object (xs ++ (key, v) :: ys) ending))
    (hv : ∀ k ∈ p.keyword? (Keyword.ofKey? key), k.waives v = false) :
    ∃ m, (p.member key).Accepts m v := by
  cases p with
  | plain => exact ⟨0, trivial⟩
  | table =>
    obtain ⟨entries, hentries⟩ := h
    obtain ⟨inner, -, hentries, -⟩ := Written.decodeTable_object_eq_ok.mp hentries
    obtain ⟨-, -, w, -, -, hw, -⟩ := Written.exists_entry hentries
    exact ⟨inner, w, hw⟩
  | schema =>
    obtain ⟨w, hw⟩ := h
    obtain ⟨inner, -, htells, -⟩ := Written.decodes_object.mp ⟨w, hw, rfl⟩
    obtain ⟨name, rfl, hname⟩ := htells.fits (key, v) (by simp)
    have hplace : schema.member (.ok name) = ofKeyword? (Keyword.ofText? name) := rfl
    refine ⟨inner, ?_⟩
    rw [hplace]
    cases hk : Keyword.ofText? name with
    | none => trivial
    | some k =>
      rw [hk] at hname
      change k.place.Accepts inner v
      cases hplace : k.place with
      | plain => trivial
      | table =>
        obtain ⟨-, ⟨entries, hentries, -⟩, -⟩ := (Written.sets_table hplace).mp hname
        exact ⟨entries, hentries⟩
      | schema => exact hname.exists_decode hplace (hv k hk)

theorem Accepts.element {xs ys : List Reading} (h : p.Accepts n (list (xs ++ v :: ys) ending))
    (hv : ∀ k ∈ p.keyword? Keyword.all[xs.length]?, k.waives v = false) :
    ∃ m, (p.element xs.length).Accepts m v := by
  cases p with
  | plain => exact ⟨0, trivial⟩
  | table => exact ⟨0, trivial⟩
  | schema =>
    obtain ⟨w, hw⟩ := h
    obtain ⟨hlength, w', hw', -⟩ := Written.decodes_list.mp ⟨w, hw, rfl⟩
    obtain ⟨k, before, after, hk, hplace, hspelled⟩ := exists_member hlength
    rw [hplace]
    have hobject : schema.Accepts n (object (before ++ (.ok k.text, v) :: after) ending) :=
      ⟨w', hspelled v ▸ hw'⟩
    apply hobject.member
    intro j hj
    have hj : j = k := by simpa [keyword?, Keyword.ofKey?, Except.toOption,
      Keyword.ofText?_text, eq_comm] using hj
    exact hv j (hj ▸ hk)

structure Replaces (p : Place) (v v' : Reading) : Prop where
  opens : v.Opens
  opens' : v'.Opens
  vet : ∀ n, v.vet n = .ok () → v'.vet n = .ok ()
  keeps : ∀ n, p.Keeps n v v'

variable {v' : Reading}

theorem Replaces.member {key : Except Fault String} (h : (p.member key).Replaces v v')
    (hp : p.member key ≠ plain) (xs ys : List (Except Fault String × Reading))
    (ending : Option Fault) :
    p.Replaces (object (xs ++ (key, v) :: ys) ending) (object (xs ++ (key, v') :: ys) ending) := by
  refine ⟨trivial, trivial, ?_, ?_⟩
  · intro n hvet
    obtain ⟨inner, rfl, hms, hending⟩ := vet_object_eq_ok.mp hvet
    exact vet_object_eq_ok.mpr
      ⟨inner, rfl, forall_mem_replace hms fun hm => ⟨hm.1, h.vet _ hm.2⟩, hending⟩
  · intro n
    cases p with
    | plain => trivial
    | table =>
      intro nodes hnodes
      exact hnodes.replace (h.keeps _)
    | schema =>
      intro settings hdecodes
      refine hdecodes.members fun htells => htells.replace ?_
      rintro ⟨name, rfl, hname⟩
      refine ⟨name, rfl, ?_⟩
      cases hk : Keyword.ofText? name with
      | none => exact absurd (congrArg ofKeyword? hk) hp
      | some k =>
        have hplace : schema.member (.ok name) = k.place := congrArg ofKeyword? hk
        rw [hk] at hname
        rw [hplace] at h hp
        exact (h.keeps _).sets hp h.opens h.opens' (h.vet _) hname

theorem Replaces.element {xs : List Reading} (h : (p.element xs.length).Replaces v v')
    (hp : p.element xs.length ≠ plain) (ys : List Reading) (ending : Option Fault) :
    p.Replaces (list (xs ++ v :: ys) ending) (list (xs ++ v' :: ys) ending) := by
  obtain rfl : p = schema := by
    by_contra hschema
    exact hp (element_ne_schema hschema _)
  refine ⟨trivial, trivial, ?_, ?_⟩
  · intro n hvet
    obtain ⟨inner, rfl, hrs, hending⟩ := vet_list_eq_ok.mp hvet
    exact vet_list_eq_ok.mpr ⟨inner, rfl, forall_mem_replace hrs (h.vet _), hending⟩
  · intro n settings hdecodes
    obtain ⟨hlength, hdecodes⟩ := Written.decodes_list.mp hdecodes
    obtain ⟨k, before, after, -, hplace, hspelled⟩ := exists_member hlength
    rw [hplace] at h hp
    rw [hspelled] at hdecodes
    refine Written.decodes_list.mpr ⟨by simpa using hlength, ?_⟩
    rw [hspelled]
    exact (h.member hp before after ending).keeps n settings hdecodes

end Place

namespace Surrounds

variable {p : Place} {k : Option Keyword} {context : Reading → Reading} {v v' : Reading}

theorem value {j : Option Keyword} (h : Surrounds .schema j context) (k : Keyword)
    (xs ys : List (Except Fault String × Reading)) (ending : Option Fault) :
    Surrounds k.place (some k)
      fun v => context (object (xs ++ (.ok k.text, v) :: ys) ending) := by
  have hkey : Keyword.ofKey? (.ok k.text) = some k := Keyword.ofText?_text k
  have hmember := h.member (.ok k.text) xs ys ending
  rwa [Place.member, Place.keyword?, hkey] at hmember

/-- Where a whole text is accepted, so is what stands anywhere in it. -/
theorem accepts (h : Surrounds p k context) {n : Nat} {w : Written}
    (hw : Written.decode n (context v) = .ok w) (hv : ∀ j ∈ k, j.waives v = false) :
    ∃ m, p.Accepts m v := by
  induction h generalizing v with
  | root => exact ⟨n, w, hw⟩
  | member _ key xs ys ending ih =>
    have hopens : Opens (object (xs ++ (key, v) :: ys) ending) := trivial
    obtain ⟨m, hm⟩ := ih hw fun j _ => j.waives_of_opens hopens
    exact hm.member hv
  | element _ xs ys ending ih =>
    have hopens : Opens (list (xs ++ v :: ys) ending) := trivial
    obtain ⟨m, hm⟩ := ih hw fun j _ => j.waives_of_opens hopens
    exact hm.element hv

theorem replaces (h : Surrounds p k context) (hp : p ≠ .plain) (hv : p.Replaces v v') :
    Place.schema.Replaces (context v) (context v') := by
  induction h generalizing v v' with
  | root => exact hv
  | @member p k context _ key xs ys ending ih =>
    refine ih ?_ (hv.member hp xs ys ending)
    rintro rfl
    exact hp rfl
  | @element p k context _ xs ys ending ih =>
    refine ih ?_ (hv.element hp ys ending)
    rintro rfl
    exact hp rfl

end Surrounds

section
variable {ks : List Keyword} {rs : List Reading} (ending : Option Fault)

theorem vet_spelledOut (h : rs.length ≤ ks.length) (n : Nat) :
    (object (Written.spelledOut ks rs) ending).vet n = .ok () ↔
      (list rs ending).vet n = .ok () := by
  have hmembers : ∀ inner, (∀ m ∈ Written.spelledOut ks rs,
      (∃ name, m.1 = .ok name) ∧ m.2.vet inner = .ok ()) ↔ ∀ r ∈ rs, r.vet inner = .ok () := by
    intro inner
    have hvalues : (Written.spelledOut ks rs).map Prod.snd = rs :=
      List.map_snd_zip (by simpa using h)
    constructor
    · intro hms r hr
      rw [← hvalues] at hr
      obtain ⟨m, hm, rfl⟩ := List.mem_map.mp hr
      exact (hms m hm).2
    · intro hrs m hm
      obtain ⟨hkey, hvalue⟩ := List.of_mem_zip hm
      obtain ⟨k, -, hk⟩ := List.mem_map.mp hkey
      exact ⟨⟨k.text, hk.symm⟩, hrs _ hvalue⟩
  simp only [vet_object_eq_ok, vet_list_eq_ok, hmembers]

/-- A list that is not too long is read as the object that has its elements under the keywords. -/
theorem replaces_spelledOut (h : rs.length ≤ Keyword.all.length) :
    Place.schema.Replaces (list rs ending) (object (Written.spelledOut Keyword.all rs) ending) ∧
      Place.schema.Replaces (object (Written.spelledOut Keyword.all rs) ending)
        (list rs ending) := by
  refine ⟨⟨trivial, trivial, fun n => (vet_spelledOut ending h n).mpr, ?_⟩,
    ⟨trivial, trivial, fun n => (vet_spelledOut ending h n).mp, ?_⟩⟩
  · exact fun n settings hdecodes => (Written.decodes_list.mp hdecodes).2
  · exact fun n settings hdecodes => Written.decodes_list.mpr ⟨h, hdecodes⟩

end

namespace Document

variable {source text text' : String} {r r' : Reading} {d : Document}

theorem ofText_eq_ok :
    ofText source text = .ok d ↔ ∃ s, Schema.ofText text = .ok s ∧ ofSchema source s = .ok d := by
  rw [ofText]
  cases Schema.ofText text <;> simp [Except.mapError, bind, Except.bind]

theorem ofText_of_error {f : Fault} (h : Schema.ofText text = .error f) :
    ofText source text = .error (.json f) := by
  rw [ofText, h]
  rfl

theorem ofText_of_replaces (h : Place.schema.Replaces r r') (htext : Spells text r)
    (htext' : Spells text' r') (hd : ofText source text = .ok d) : ofText source text' = .ok d := by
  obtain ⟨s, hs, hd⟩ := ofText_eq_ok.mp hd
  refine ofText_eq_ok.mpr ⟨s, ?_, hd⟩
  rw [Schema.ofText_of_spells htext] at hs
  obtain ⟨w, hw, rfl⟩ := Synth.map_eq_ok hs
  obtain ⟨w', hw', hsettings⟩ := h.keeps _ w.setting ⟨w, hw, rfl⟩
  rw [Schema.ofText_of_spells htext', hw']
  simp only [Except.map, Written.schema, Written.node_eq_of_setting hsettings]

theorem exists_decode_of_ofText {rest : List Char} {s : Schema}
    (hread : Reading.ofText text.toList = (r, rest)) (hs : Schema.ofText text = .ok s) :
    ∃ w, Written.decode Written.nestingLimit r = .ok w := by
  obtain ⟨w, hw, -⟩ := Synth.map_eq_ok hs
  rw [Written.ofText, hread] at hw
  obtain ⟨w', hw', -⟩ := Fault.bind_eq_ok.mp hw
  exact ⟨w', hw'⟩

/-- What stands where a schema should is an object, or a list of at most as many values as there are
keywords. A text with anything else there is refused, and the list is read as the object that has
its values under the keywords. -/
theorem ofText_schema_forms (source : String) {k : Option Keyword} {context : Reading → Reading}
    (h : Surrounds .schema k context) :
    (∀ v text rest, Reading.ofText text.toList = (context v, rest) →
      (∀ j ∈ k, j.waives v = false) → (∀ ms ending, v ≠ object ms ending) →
      (∀ rs ending, v = list rs ending → Keyword.all.length < rs.length) →
      ∃ f, ofText source text = .error (.json f)) ∧
    ∀ rs ending, rs.length ≤ Keyword.all.length → ∀ text text',
      Spells text (context (list rs ending)) →
      Spells text' (context (object (Written.spelledOut Keyword.all rs) ending)) →
      ∀ d, ofText source text = .ok d ↔ ofText source text' = .ok d := by
  constructor
  · intro v text rest hread hwaives hobject hlist
    cases hs : Schema.ofText text with
    | error f => exact ⟨f, ofText_of_error hs⟩
    | ok s =>
      obtain ⟨w, hw⟩ := exists_decode_of_ofText hread hs
      obtain ⟨m, u, hu⟩ := h.accepts hw hwaives
      obtain ⟨ms, ending, hv⟩ | ⟨rs, ending, hv, hlength⟩ := Written.form_of_decode hu
      · exact absurd hv (hobject ms ending)
      · exact absurd (hlist rs ending hv) (Nat.not_lt.mpr hlength)
  · intro rs ending hlength text text' htext htext' d
    obtain ⟨hto, hfrom⟩ := replaces_spelledOut ending hlength
    constructor
    · exact ofText_of_replaces (h.replaces nofun hto) htext htext'
    · exact ofText_of_replaces (h.replaces nofun hfrom) htext' htext

theorem rows_schema_forms :
    let context := fun v => object [(.ok "items", v)] none
    let written := fun v => String.ofList (context v).spelling
    let title := Reading.text (.ok "Row")
    Surrounds .schema (some .items) context ∧
      (∃ f, ofText "rows" (written (number true)) = .error (.json f)) ∧
      ∃ d, ofText "rows" (written (list [title] none)) = .ok d ∧
        ofText "rows" (written (object [(.ok "title", title)] none)) = .ok d := by
  intro context written title
  have hcontext : Surrounds .schema (some .items) context :=
    Surrounds.root.value .items [] [] none
  have hnumber : Reading.ofText (written (number true)).toList = (context (number true), []) := by
    rw [String.toList_ofList, (isValue_of_vet _ (n := 127) rfl).ofText_spelling]
  have hlist : Spells (written (list [title] none)) (context (list [title] none)) :=
    spells_spelling (isValue_of_vet _ (n := 127) rfl)
  have hobject : Spells (written (object [(.ok "title", title)] none))
      (context (object (Written.spelledOut Keyword.all [title]) none)) :=
    spells_spelling (isValue_of_vet _ (n := 127) rfl)
  have hdecode : (Written.decode Written.nestingLimit (context (list [title] none))).toOption.map
      (fun w => w.node.unnamedDefinition?) = some none := by decide +kernel
  obtain ⟨w, hw, hnamed⟩ := Option.map_eq_some_iff.mp hdecode
  have hs : Schema.ofText (written (list [title] none)) = .ok w.schema := by
    rw [Schema.ofText_of_spells hlist, Synth.eq_ok_of_toOption hw]
    rfl
  obtain ⟨d, hd⟩ : ∃ d, ofSchema "rows" w.schema = .ok d := by
    simp [ofSchema, Written.schema, hnamed]
  have hloaded := ofText_eq_ok.mpr ⟨w.schema, hs, hd⟩
  obtain ⟨hrefused, hread⟩ := ofText_schema_forms "rows" hcontext
  refine ⟨hcontext, hrefused (number true) _ _ hnumber (by decide) (by simp) (by simp), d, hloaded,
    ?_⟩
  exact (hread [title] none (by decide) _ _ hlist hobject _).mp hloaded

/-- An empty list is no object, and is loaded as a schema without keywords. -/
theorem empty_list_loaded :
    Reading.ofText "[]".toList = (list [] none, []) ∧
      ofText "list" "[]" = .ok ⟨"list", [], ({} : Written).schema⟩ := ⟨rfl, rfl⟩

end Document

end SchemaStructs
