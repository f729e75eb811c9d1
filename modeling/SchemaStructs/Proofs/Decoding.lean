import Mathlib.Data.List.Perm.Basic
import SchemaStructs.Proofs.JsonText
import SchemaStructs.Proofs.Wire
import SchemaStructs.Schema.Decode

namespace SchemaStructs

theorem forall_mem_insert {α : Type} {P : α → Prop} {xs ys : List α} {b : α}
    (h : ∀ x ∈ xs ++ ys, P x) (hb : P b) : ∀ x ∈ xs ++ b :: ys, P x := by
  simp only [List.forall_mem_append, List.forall_mem_cons] at h ⊢
  exact ⟨h.1, hb, h.2⟩

theorem forall_mem_replace {α : Type} {P : α → Prop} {xs ys : List α} {a b : α}
    (h : ∀ x ∈ xs ++ a :: ys, P x) (hb : P a → P b) : ∀ x ∈ xs ++ b :: ys, P x := by
  simp only [List.forall_mem_append, List.forall_mem_cons] at h ⊢
  exact ⟨h.1, hb h.2.1, h.2.2⟩

/-- What a keyword is set to, whatever the order of the names in it. -/
inductive Setting where
  | text (content : Option String)
  | type (type : Option TypeKeyword)
  | texts (contents : List String)
  | table (nodes : String → Option Node)
  | schema (node : Option Node)
  | extra (value : Option (Bool ⊕ Node))

def Keyword.ofKey? (key : Except Json.Fault String) : Option Keyword :=
  key.toOption.bind ofText?

theorem Keyword.ofText?_text (k : Keyword) : ofText? k.text = some k := by
  cases k <;> decide +kernel

namespace Written

open Json Json.Reading

def table (entries : List (String × Written)) (name : String) : Option Node :=
  (Entries.last? name entries).map node

def setting (w : Written) : Keyword → Setting
  | .title => .text w.title
  | .description => .text w.description
  | .id => .text w.id
  | .legacyId => .text w.legacyId
  | .metaSchema => .text w.metaSchema
  | .type => .type w.type
  | .properties => .table (table w.properties)
  | .additional => .extra (w.additional.map (Sum.map (fun b => b) node))
  | .items => .schema (w.items.map node)
  | .reference => .text w.reference
  | .required => .texts w.required
  | .definitions => .table (table w.definitions)
  | .defs => .table (table w.defs)

def take (w : Written) (k : Keyword) (v : Written) : Written :=
  match k with
  | .title => { w with title := v.title }
  | .description => { w with description := v.description }
  | .id => { w with id := v.id }
  | .legacyId => { w with legacyId := v.legacyId }
  | .metaSchema => { w with metaSchema := v.metaSchema }
  | .type => { w with type := v.type }
  | .properties => { w with properties := v.properties }
  | .additional => { w with additional := v.additional }
  | .items => { w with items := v.items }
  | .reference => { w with reference := v.reference }
  | .required => { w with required := v.required }
  | .definitions => { w with definitions := v.definitions }
  | .defs => { w with defs := v.defs }

theorem setting_take_self (w v : Written) (k : Keyword) :
    (w.take k v).setting k = v.setting k := by
  cases k <;> rfl

theorem setting_take_of_ne (w v : Written) {j k : Keyword} (h : j ≠ k) :
    (w.take k v).setting j = w.setting j := by
  cases k <;> cases j <;> trivial

theorem untypedExtra_eq (additional : Option (Bool ⊕ Written)) :
    untypedExtra additional =
      (additional.map (Sum.map (fun b => b) node)).bind Sum.getLeft? := by
  match additional with
  | none | some (.inl _) | some (.inr _) => rfl

theorem map_getRight? (additional : Option (Bool ⊕ Written)) :
    (additional.bind Sum.getRight?).map node =
      (additional.map (Sum.map (fun b => b) node)).bind Sum.getRight? := by
  match additional with
  | none | some (.inl _) | some (.inr _) => rfl

theorem bind_pure_take {α : Type} (x : Except Fault α) {w : Written} {k : Keyword}
    {c d : α → Written} (h : ∀ a, c a = w.take k (d a)) :
    (x >>= fun a => pure (c a)) = (x >>= fun a => pure (d a)).map (w.take k) := by
  cases x with
  | error e => rfl
  | ok a => exact congrArg Except.ok (h a)

/-- What a keyword is set to does not depend on the keywords before it. -/
theorem assign_eq_take (n : Nat) (w : Written) (k : Keyword) (r : Reading)
    (f : Unit → Except Fault Written) (g : Unit → Except Fault (List (String × Written))) :
    assign n w k r f g = (assign n {} k r f g).map (w.take k) := by
  cases k with
  | additional =>
    have hsub : (r.vet n >>= fun _ => vetted (f ()) >>= fun v =>
        pure { w with additional := some (.inr v) }) =
          (r.vet n >>= fun _ => vetted (f ()) >>= fun v =>
            pure { additional := some (.inr v) }).map (w.take .additional) := by
      cases r.vet n with
      | error e => rfl
      | ok _ => exact bind_pure_take (vetted (f ())) fun _ => rfl
    cases r with
    | null | bool => rfl
    | number | text | list | object | fault => exact hsub
  | items =>
    cases r with
    | null => rfl
    | _ => exact bind_pure_take (f ()) fun _ => rfl
  | properties | definitions | defs => exact bind_pure_take (g ()) fun _ => rfl
  | type | required => exact bind_pure_take _ fun _ => rfl
  | title | description | id | legacyId | metaSchema | reference =>
    exact bind_pure_take (optionalText r) fun _ => rfl

theorem head_node_of_setting {w w' : Written} (h : w.setting = w'.setting) :
    w.node.head = w'.node.head := by
  have hk := congrFun h
  have hextra : untypedExtra w.additional = untypedExtra w'.additional := by
    rw [untypedExtra_eq, untypedExtra_eq, Setting.extra.inj (hk .additional)]
  cases w
  cases w'
  simp only [node, Node.head]
  congr 1
  · exact Setting.text.inj (hk .title)
  · exact Setting.text.inj (hk .description)
  · exact congrArg₂ Option.or (Setting.text.inj (hk .id)) (Setting.text.inj (hk .legacyId))
  · exact Setting.text.inj (hk .metaSchema)
  · exact Setting.type.inj (hk .type)
  · exact Setting.text.inj (hk .reference)
  · exact Setting.texts.inj (hk .required)

theorem child?_node_of_setting {w w' : Written} (h : w.setting = w'.setting) (s : Segment) :
    w.node.child? s = w'.node.child? s := by
  have hk := congrFun h
  rw [child?_node, child?_node]
  cases s with
  | definition name =>
    have hdefinitions := congrFun (Setting.table.inj (hk .definitions)) name
    have hdefs := congrFun (Setting.table.inj (hk .defs)) name
    rw [child?, child?, Option.map_or, Option.map_or]
    exact congrArg₂ Option.or hdefinitions hdefs
  | property name => exact congrFun (Setting.table.inj (hk .properties)) name
  | items => exact Setting.schema.inj (hk .items)
  | additional =>
    rw [child?, child?, map_getRight?, map_getRight?, Setting.extra.inj (hk .additional)]

theorem node_eq_of_setting {w w' : Written} (h : w.setting = w'.setting) : w.node = w'.node := by
  have hhead := head_node_of_setting h
  have hchild := child?_node_of_setting h
  have hn := w.canonical_node
  have hn' := w'.canonical_node
  generalize w.node = n, w'.node = n' at hhead hchild hn hn'
  cases n with
  | mk head cs =>
    cases n' with
    | mk head' cs' =>
      have hdict : (⟨cs, (Node.canonical_mk.mp hn).1⟩ : Dict Segment Node) =
          ⟨cs', (Node.canonical_mk.mp hn').1⟩ := Dict.ext_get? hchild
      exact congrArg₂ Node.mk hhead (congrArg Dict.entries hdict)

def Sets (n : Nat) (k : Keyword) (r : Reading) (x : Setting) : Prop :=
  ∃ v, assign n {} k r (fun _ => decode n r) (fun _ => decodeTable n r) = .ok v ∧ v.setting k = x

def keyword? (m : Except Fault String × Reading) : Option Keyword := Keyword.ofKey? m.1

def Fits (n : Nat) (settings : Keyword → Setting) (m : Except Fault String × Reading) : Prop :=
  ∃ name, m.1 = .ok name ∧
    match Keyword.ofText? name with
    | none => m.2.skim = .ok ()
    | some k => Sets n k m.2 (settings k)

section
variable {n : Nat} {seen : List Keyword} {w u : Written} {settings : Keyword → Setting}
  {ms : List (Except Fault String × Reading)} {name : String} {r : Reading}

theorem decodeMembers_unknown (h : Keyword.ofText? name = none) :
    decodeMembers n seen w ((.ok name, r) :: ms) = .ok u ↔
      r.skim = .ok () ∧ decodeMembers n seen w ms = .ok u := by
  have hstep : decodeMembers n seen w ((.ok name, r) :: ms) =
      r.skim >>= fun _ => decodeMembers n seen w ms := by
    rw [decodeMembers]
    simp [bind, Except.bind, h]
  rw [hstep, Fault.seq_eq_ok]

theorem decodeMembers_known {k : Keyword} (h : Keyword.ofText? name = some k) :
    decodeMembers n seen w ((.ok name, r) :: ms) = .ok u ↔
      k ∉ seen ∧ ∃ v, assign n {} k r (fun _ => decode n r) (fun _ => decodeTable n r) = .ok v ∧
        decodeMembers n (k :: seen) (w.take k v) ms = .ok u := by
  have hstep : decodeMembers n seen w ((.ok name, r) :: ms) =
      if seen.contains k then .error .wrongForm
      else assign n w k r (fun _ => decode n r) (fun _ => decodeTable n r) >>= fun w =>
        decodeMembers n (k :: seen) w ms := by
    rw [decodeMembers]
    simp [bind, Except.bind, h]
  rw [hstep, assign_eq_take]
  by_cases hk : k ∈ seen
  · simp [hk]
  · cases assign n {} k r (fun _ => decode n r) (fun _ => decodeTable n r) <;>
      simp [hk, bind, Except.bind, Except.map]

/-- What the members of a schema come to is told without their order: each keyword is set once,
and stays as it was where none of them sets it. -/
theorem decodeMembers_iff : (∃ u, decodeMembers n seen w ms = .ok u ∧ u.setting = settings) ↔
    (∀ m ∈ ms, Fits n settings m) ∧ (ms.filterMap keyword?).Nodup ∧
      (∀ k ∈ ms.filterMap keyword?, k ∉ seen) ∧
      ∀ k ∉ ms.filterMap keyword?, settings k = w.setting k := by
  induction ms generalizing seen w with
  | nil => simp [decodeMembers, funext_iff, eq_comm]
  | cons m ms ih =>
    obtain ⟨key, r⟩ := m
    cases key with
    | error f => simp [decodeMembers, Fits, bind, Except.bind]
    | ok name =>
      cases hname : Keyword.ofText? name with
      | none =>
        have hkeyword : keyword? (.ok name, r) = none := hname
        have hfits : Fits n settings (.ok name, r) ↔ r.skim = .ok () := by simp [Fits, hname]
        simp only [decodeMembers_unknown hname, List.filterMap_cons_none hkeyword,
          List.forall_mem_cons, hfits, and_assoc, exists_and_left, ih]
      | some k =>
        have hkeyword : keyword? (.ok name, r) = some k := hname
        have hfits : Fits n settings (.ok name, r) ↔ Sets n k r (settings k) := by
          simp [Fits, hname]
        simp only [decodeMembers_known hname, List.filterMap_cons_some hkeyword,
          List.forall_mem_cons, hfits, List.nodup_cons]
        constructor
        · rintro ⟨u, ⟨hk, v, hv, hu⟩, hsettings⟩
          obtain ⟨hms, hnodup, hseen, hrest⟩ := ih.mp ⟨u, hu, hsettings⟩
          have hfresh : k ∉ ms.filterMap keyword? := fun h => hseen k h List.mem_cons_self
          refine ⟨⟨⟨v, hv, ?_⟩, hms⟩, ⟨hfresh, hnodup⟩, ⟨hk, ?_⟩, ?_⟩
          · rw [hrest k hfresh, setting_take_self]
          · exact fun j hj hmem => hseen j hj (List.mem_cons_of_mem _ hmem)
          · intro j hj
            obtain ⟨hjk, hj⟩ := not_or.mp (mt List.mem_cons.mpr hj)
            rw [hrest j hj, setting_take_of_ne _ _ hjk]
        · rintro ⟨⟨⟨v, hv, hset⟩, hms⟩, ⟨hfresh, hnodup⟩, ⟨hk, hseen⟩, hrest⟩
          have hdecode : ∃ u, decodeMembers n (k :: seen) (w.take k v) ms = .ok u ∧
              u.setting = settings := by
            refine ih.mpr ⟨hms, hnodup, ?_, ?_⟩
            · intro j hj hmem
              obtain rfl | hmem := List.mem_cons.mp hmem
              · exact hfresh hj
              · exact hseen j hj hmem
            · intro j hj
              by_cases hjk : j = k
              · rw [hjk, ← hset, setting_take_self]
              · have hj : j ∉ k :: ms.filterMap keyword? := by simp [hjk, hj]
                rw [setting_take_of_ne _ _ hjk, hrest j hj]
          obtain ⟨u, hu, hsettings⟩ := hdecode
          exact ⟨u, ⟨hk, v, hv, hu⟩, hsettings⟩

end

structure Tells (n : Nat) (settings : Keyword → Setting)
    (ms : List (Except Fault String × Reading)) : Prop where
  fits : ∀ m ∈ ms, Fits n settings m
  once : (ms.filterMap keyword?).Nodup
  unset : ∀ k ∉ ms.filterMap keyword?, settings k = ({} : Written).setting k

def Decodes (n : Nat) (r : Reading) (settings : Keyword → Setting) : Prop :=
  ∃ w, decode n r = .ok w ∧ w.setting = settings

section
variable {n : Nat} {settings : Keyword → Setting} {ending : Option Fault}
  {ms ms' xs ys : List (Except Fault String × Reading)}

theorem decode_object_eq_ok {w : Written} : decode n (object ms ending) = .ok w ↔
    ∃ inner, n = inner + 1 ∧ decodeMembers inner [] {} ms = .ok w ∧ ending = none := by
  simp [decode, @Fault.bind_eq_ok Nat, @Fault.bind_eq_ok Written, Fault.seq_eq_ok, descend_eq_ok,
    closed_eq_ok, pure, Except.pure]

theorem decodes_object : Decodes n (object ms ending) settings ↔
    ∃ inner, n = inner + 1 ∧ Tells inner settings ms ∧ ending = none := by
  constructor
  · rintro ⟨w, hw, hsettings⟩
    obtain ⟨inner, hn, hw, hending⟩ := decode_object_eq_ok.mp hw
    obtain ⟨hfits, honce, -, hunset⟩ := decodeMembers_iff.mp ⟨w, hw, hsettings⟩
    exact ⟨inner, hn, ⟨hfits, honce, hunset⟩, hending⟩
  · rintro ⟨inner, hn, h, hending⟩
    obtain ⟨w, hw, hsettings⟩ := decodeMembers_iff.mpr
      ⟨h.fits, h.once, fun _ _ => List.not_mem_nil, h.unset⟩
    exact ⟨w, decode_object_eq_ok.mpr ⟨inner, hn, hw, hending⟩, hsettings⟩

theorem Decodes.members (h : Decodes n (object ms ending) settings)
    (hms : Tells (n - 1) settings ms → Tells (n - 1) settings ms') :
    Decodes n (object ms' ending) settings := by
  obtain ⟨inner, rfl, htells, hending⟩ := decodes_object.mp h
  exact decodes_object.mpr ⟨inner, rfl, hms htells, hending⟩

theorem Tells.change (h : Tells n settings ms)
    (hkeywords : (ms.filterMap keyword?).Perm (ms'.filterMap keyword?))
    (hfits : ∀ m ∈ ms', m ∈ ms ∨ Fits n settings m) : Tells n settings ms' := by
  refine ⟨?_, hkeywords.nodup_iff.mp h.once, ?_⟩
  · intro m hm
    obtain hm | hm := hfits m hm
    · exact h.fits m hm
    · exact hm
  · exact fun k hk => h.unset k (mt hkeywords.mem_iff.mp hk)

theorem Tells.perm (h : Tells n settings ms) (hp : ms.Perm ms') : Tells n settings ms' :=
  h.change (hp.filterMap keyword?) fun _ hm => .inl (hp.mem_iff.mpr hm)

theorem Tells.insert (h : Tells n settings (xs ++ ys)) {key : String} {r : Reading}
    (hkey : Keyword.ofText? key = none) (hr : r.skim = .ok ()) :
    Tells n settings (xs ++ (.ok key, r) :: ys) := by
  have hnone : keyword? (.ok key, r) = none := hkey
  have hfits : Fits n settings (.ok key, r) := ⟨key, rfl, by simpa [hkey] using hr⟩
  exact h.change (by simp [hnone]) (forall_mem_insert (fun m hm => .inl hm) (.inr hfits))

theorem Tells.replace {key : Except Fault String} {r r' : Reading}
    (h : Tells n settings (xs ++ (key, r) :: ys))
    (hr : Fits n settings (key, r) → Fits n settings (key, r')) :
    Tells n settings (xs ++ (key, r') :: ys) := by
  have hsame : keyword? (key, r') = keyword? (key, r) := rfl
  have hfits : Fits n settings (key, r') := hr (h.fits _ (by simp))
  exact h.change (by simp [List.filterMap_cons, hsame])
    (forall_mem_replace (fun m hm => .inl hm) fun _ => .inr hfits)

end

def spelledOut (ks : List Keyword) (rs : List Reading) : List (Except Fault String × Reading) :=
  (ks.map fun k => .ok k.text).zip rs

section
variable {n : Nat} {w : Written} {ks seen : List Keyword} {rs xs ys : List Reading}
  {settings : Keyword → Setting} {ending : Option Fault}

theorem decodeElements_cons {k : Keyword} {r : Reading} {u : Written} :
    decodeElements n (k :: ks) w (r :: rs) = .ok u ↔
      ∃ v, assign n {} k r (fun _ => decode n r) (fun _ => decodeTable n r) = .ok v ∧
        decodeElements n ks (w.take k v) rs = .ok u := by
  rw [decodeElements, assign_eq_take]
  cases assign n {} k r (fun _ => decode n r) (fun _ => decodeTable n r) <;>
    simp [bind, Except.bind, Except.map]

/-- A list of keyword values is read like the object that has them under their keywords. -/
theorem decodeElements_eq_ok {u : Written} (hks : (ks ++ seen).Nodup) :
    decodeElements n ks w rs = .ok u ↔
      rs.length ≤ ks.length ∧ decodeMembers n seen w (spelledOut ks rs) = .ok u := by
  induction rs generalizing ks seen w with
  | nil => simp [decodeElements, spelledOut, decodeMembers]
  | cons r rs ih =>
    cases ks with
    | nil => simp [decodeElements]
    | cons k ks =>
      have hk : k ∉ seen := by
        intro hmem
        exact (List.nodup_cons.mp hks).1 (List.mem_append_right _ hmem)
      have hperm : (k :: (ks ++ seen)).Perm (ks ++ k :: seen) := List.perm_middle.symm
      have hmembers : spelledOut (k :: ks) (r :: rs) = (.ok k.text, r) :: spelledOut ks rs := rfl
      rw [decodeElements_cons, hmembers, decodeMembers_known (Keyword.ofText?_text k)]
      simp only [ih (hperm.nodup_iff.mp hks), hk, not_false_eq_true, true_and, List.length_cons,
        Nat.add_le_add_iff_right]
      tauto

theorem decode_list_eq_ok {u : Written} : decode n (list rs ending) = .ok u ↔
    ∃ inner, n = inner + 1 ∧ decodeElements inner Keyword.all {} rs = .ok u ∧ ending = none := by
  simp [decode, @Fault.bind_eq_ok Nat, @Fault.bind_eq_ok Written, Fault.seq_eq_ok, descend_eq_ok,
    closed_eq_ok, pure, Except.pure]

theorem decodes_list : Decodes n (list rs ending) settings ↔
    rs.length ≤ Keyword.all.length ∧
      Decodes n (object (spelledOut Keyword.all rs) ending) settings := by
  have hall : (Keyword.all ++ []).Nodup := by decide
  simp only [Decodes, decode_list_eq_ok, decode_object_eq_ok, decodeElements_eq_ok hall]
  tauto

theorem exists_spelledOut (ys : List Reading) (h : xs.length < ks.length) :
    ∃ k before after, ks[xs.length]? = some k ∧
      ∀ r, spelledOut ks (xs ++ r :: ys) = before ++ (.ok k.text, r) :: after := by
  induction xs generalizing ks with
  | nil =>
    cases ks with
    | nil => cases h
    | cons k ks => exact ⟨k, [], spelledOut ks ys, rfl, fun _ => rfl⟩
  | cons x xs ih =>
    cases ks with
    | nil => cases h
    | cons j ks =>
      obtain ⟨k, before, after, hk, hspelled⟩ := ih (Nat.lt_of_succ_lt_succ h)
      refine ⟨k, (.ok j.text, x) :: before, after, by simpa using hk, ?_⟩
      intro r
      exact congrArg ((.ok j.text, x) :: ·) (hspelled r)

end

def Tabulates (n : Nat) (r : Reading) (nodes : String → Option Node) : Prop :=
  ∃ entries, decodeTable n r = .ok entries ∧ table entries = nodes

def Enters (n : Nat) (m : Except Fault String × Reading) (e : String × Written) : Prop :=
  m.1 = .ok e.1 ∧ decode n m.2 = .ok e.2

theorem last?_eq_some_iff {entries : List (String × Written)} (h : (entries.map Prod.fst).Nodup)
    {name : String} {w : Written} :
    Entries.last? name entries = some w ↔ (name, w) ∈ entries := by
  induction entries with
  | nil => simp [Entries.last?]
  | cons e entries ih =>
    obtain ⟨key, v⟩ := e
    obtain ⟨hkey, hentries⟩ := List.nodup_cons.mp h
    by_cases hname : name = key
    · subst hname
      have hother : ∀ e ∈ entries, name ≠ e.1 := by
        rintro e he rfl
        exact hkey (List.mem_map.mpr ⟨e, he, rfl⟩)
      have hnone := Entries.last?_eq_none hother
      have hmem : (name, w) ∉ entries := fun hm => hother _ hm rfl
      simp [Entries.last?, hnone, Key.rank_self, hmem, eq_comm]
    · simp [Entries.last?, mt Key.rank_eq_iff.mp hname, hname, ih hentries]

theorem table_perm {entries entries' : List (String × Written)} (hp : entries.Perm entries')
    (h : (entries.map Prod.fst).Nodup) : table entries = table entries' := by
  have h' : (entries'.map Prod.fst).Nodup := (hp.map Prod.fst).nodup_iff.mp h
  funext name
  refine congrArg (Option.map node) (Option.ext fun w => ?_)
  rw [last?_eq_some_iff h, last?_eq_some_iff h', hp.mem_iff]

theorem table_replace {w w' : Written} (h : w.node = w'.node) (name : String)
    (xs ys : List (String × Written)) :
    table (xs ++ (name, w) :: ys) = table (xs ++ (name, w') :: ys) := by
  funext key
  simp only [table, Entries.last?_append, Entries.last?, Option.map_or]
  congr 2
  split
  · exact congrArg some h
  · rfl

section
variable {n : Nat} {nodes : String → Option Node} {ending : Option Fault}
  {ms ms' xs ys : List (Except Fault String × Reading)} {entries : List (String × Written)}

theorem decodeEntries_eq_ok :
    decodeEntries n ms = .ok entries ↔ List.Forall₂ (Enters n) ms entries := by
  induction ms generalizing entries with
  | nil => simp [decodeEntries, eq_comm]
  | cons m ms ih =>
    obtain ⟨key, r⟩ := m
    simp only [decodeEntries, Fault.bind_eq_ok, pure, Except.pure, List.forall₂_cons_left_iff,
      Enters, ← ih]
    constructor
    · rintro ⟨name, hname, w, hw, es, hes, h⟩
      exact ⟨(name, w), es, ⟨hname, hw⟩, hes, (Except.ok.inj h).symm⟩
    · rintro ⟨⟨name, w⟩, es, ⟨hname, hw⟩, hes, rfl⟩
      exact ⟨name, hname, w, hw, es, hes, rfl⟩

theorem decodeTable_object_eq_ok : decodeTable n (object ms ending) = .ok entries ↔
    ∃ inner, n = inner + 1 ∧ List.Forall₂ (Enters inner) ms entries ∧ ending = none := by
  simp [decodeTable, @Fault.bind_eq_ok Nat, @Fault.bind_eq_ok (List (String × Written)),
    Fault.seq_eq_ok, descend_eq_ok, closed_eq_ok, pure, Except.pure, decodeEntries_eq_ok]

theorem names_of_enters (h : List.Forall₂ (Enters n) ms entries) :
    entries.map Prod.fst = ms.filterMap fun m => m.1.toOption := by
  induction h with
  | nil => rfl
  | cons h _ ih => simp [h.1, Except.toOption, ih]

theorem Tabulates.perm (h : Tabulates n (object ms ending) nodes) (hp : ms.Perm ms')
    (hkeys : (ms.filterMap fun m => m.1.toOption).Nodup) :
    Tabulates n (object ms' ending) nodes := by
  obtain ⟨entries, hentries, rfl⟩ := h
  obtain ⟨inner, hn, hentries, hending⟩ := decodeTable_object_eq_ok.mp hentries
  obtain ⟨entries', hentries', hperm⟩ := List.perm_comp_forall₂ hp.symm hentries
  refine ⟨entries', decodeTable_object_eq_ok.mpr ⟨inner, hn, hentries', hending⟩, ?_⟩
  exact (table_perm hperm.symm (names_of_enters hentries ▸ hkeys)).symm

theorem exists_entry {key : Except Fault String} {r : Reading}
    (h : List.Forall₂ (Enters n) (xs ++ (key, r) :: ys) entries) :
    ∃ before name w after, entries = before ++ (name, w) :: after ∧ decode n r = .ok w ∧
      ∀ r' w', decode n r' = .ok w' →
        List.Forall₂ (Enters n) (xs ++ (key, r') :: ys) (before ++ (name, w') :: after) := by
  induction xs generalizing entries with
  | nil =>
    obtain ⟨⟨name, w⟩, after, ⟨hname, hw⟩, hafter, rfl⟩ := List.forall₂_cons_left_iff.mp h
    exact ⟨[], name, w, after, rfl, hw, fun r' w' hw' => .cons ⟨hname, hw'⟩ hafter⟩
  | cons m xs ih =>
    obtain ⟨e, rest, he, hrest, rfl⟩ := List.forall₂_cons_left_iff.mp h
    obtain ⟨before, name, w, after, rfl, hw, hreplace⟩ := ih hrest
    exact ⟨e :: before, name, w, after, rfl, hw, fun r' w' hw' => .cons he (hreplace r' w' hw')⟩

theorem Tabulates.replace {key : Except Fault String} {r r' : Reading}
    (h : Tabulates n (object (xs ++ (key, r) :: ys) ending) nodes)
    (hr : ∀ settings, Decodes (n - 1) r settings → Decodes (n - 1) r' settings) :
    Tabulates n (object (xs ++ (key, r') :: ys) ending) nodes := by
  obtain ⟨entries, hentries, rfl⟩ := h
  obtain ⟨inner, rfl, hentries, hending⟩ := decodeTable_object_eq_ok.mp hentries
  obtain ⟨before, name, w, after, rfl, hw, hreplace⟩ := exists_entry hentries
  obtain ⟨w', hw', hsettings⟩ := hr w.setting ⟨w, hw, rfl⟩
  refine ⟨before ++ (name, w') :: after,
    decodeTable_object_eq_ok.mpr ⟨inner, rfl, hreplace r' w' hw', hending⟩, ?_⟩
  exact table_replace (node_eq_of_setting hsettings) name before after

end

end Written

end SchemaStructs
