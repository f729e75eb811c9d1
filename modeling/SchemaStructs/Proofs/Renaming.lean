import SchemaStructs.Proofs.FieldNames
import SchemaStructs.Proofs.Requests

namespace SchemaStructs

namespace Naming

def search (taken : List String) (base : String) (tries : Nat) : Option String :=
  ((List.range' 2 tries).map (numbered base)).find? fun s => !taken.contains s

variable {taken : List String} {base : String}

theorem search_append (m n : Nat) {name : String} (h : search taken base m = some name) :
    search taken base (m + n) = some name := by
  have hsplit : List.range' 2 (m + n) = List.range' 2 m ++ List.range' (2 + m) n := by simp
  rw [search] at h ⊢
  rw [hsplit, List.map_append, List.find?_append, h]
  rfl

theorem search_length : search taken base (taken.length + 1) = some (renumbered taken base) := by
  obtain ⟨name, hmem, hfree⟩ := exists_free taken base
  cases hs : search taken base (taken.length + 1) with
  | none => simpa [hfree] using List.find?_eq_none.mp hs name hmem
  | some name' =>
    rw [search] at hs
    simp only [renumbered, hs, Option.getD_some]

/-- A search through more candidates than there are taken names ends, and goes no further however
many more there are. -/
theorem search_eq_renumbered {tries : Nat} (h : taken.length < tries) :
    search taken base tries = some (renumbered taken base) := by
  obtain ⟨n, rfl⟩ := Nat.exists_eq_add_of_lt h
  have hlength : taken.length + n + 1 = taken.length + 1 + n := by omega
  rw [hlength]
  exact search_append _ n search_length

theorem isLeast_free_le {n : Nat} (h : IsLeast {n | 2 ≤ n ∧ numbered base n ∉ taken} n) :
    n ≤ taken.length + 2 := by
  obtain ⟨name, hmem, hfree⟩ := exists_free taken base
  obtain ⟨k, hk, rfl⟩ := List.mem_map.mp hmem
  obtain ⟨hlow, hhigh⟩ := List.mem_range'_1.mp hk
  have hle := h.2 ⟨hlow, hfree⟩
  omega

end Naming

open Naming (exported numbered renumbered unique search Distinguished)

namespace Registry

variable {r : Registry} {owner : Declaration} {l : Location} {base origin : String}
  {qualifier : Option String}

def TellsApart (r : Registry) (owner : Declaration) (l : Location) (base label : String) : Prop :=
  owner.location.document ≠ l.document ∧ exported label ≠ "" ∧ exported label ++ base ∉ r.names

theorem disambiguate_of_tellsApart {label : String} (h : r.TellsApart owner l base label) :
    r.disambiguate owner l base (some label) = exported label ++ base := by
  obtain ⟨hdocument, hlabel, hfree⟩ := h
  have hnone := owner?_eq_none_iff.mpr hfree
  simp [disambiguate, hdocument, hlabel, hnone]

theorem disambiguate_of_not_tellsApart
    (h : ∀ label, qualifier = some label → ¬ r.TellsApart owner l base label) :
    r.disambiguate owner l base qualifier = renumbered r.names base := by
  unfold disambiguate
  dsimp only
  split
  next hif =>
    cases qualifier with
    | none => simp at hif
    | some label =>
      obtain ⟨hdocument, hlabel, hnone⟩ := hif
      refine absurd ⟨hdocument, by simpa using hlabel, ?_⟩ (h label rfl)
      exact owner?_eq_none_iff.mp (Option.isNone_iff_eq_none.mp hnone)
  next => rfl

end Registry

/-- New names are free and as near to the old ones as can be. A key that is not taken stays, a
taken one gets the least number from 2 on that makes a free key, and the search for it ends. A node
that asks for an owned name gets the name with the label of its document in front where this tells
it apart from the owner, and otherwise the name with the least number that makes a free one. -/
theorem renaming_minimal :
    (∀ {α : Type} (taken : Dict String α) (base : String),
      unique taken.keys base ∉ taken.keys ∧
      (base ∉ taken.keys → unique taken.keys base = base) ∧
      (base ∈ taken.keys → ∃ n, IsLeast {n | 2 ≤ n ∧ numbered base n ∉ taken.keys} n ∧
        n ≤ taken.size + 2 ∧ unique taken.keys base = numbered base n ∧
        ∀ tries > taken.size, search taken.keys base tries = some (numbered base n))) ∧
    ∀ (r : Registry) (l : Location) (base origin : String) (qualifier : Option String)
      (owner : Declaration), r.policy = .disambiguate → r.nameOf? l = none →
      r.owner? base = some owner →
      ∃ name, r.declare l base origin qualifier =
          .ok (name, r.record ⟨l, name, origin⟩, [.renamed base owner.origin origin name]) ∧
        name ∉ r.names ∧
        (∀ label, qualifier = some label → r.TellsApart owner l base label →
          name = exported label ++ base) ∧
        ((∀ label, qualifier = some label → ¬ r.TellsApart owner l base label) →
          ∃ n, IsLeast {n | 2 ≤ n ∧ numbered base n ∉ r.names} n ∧
            name = numbered base n ∧
            ∀ tries > r.names.length, search r.names base tries = some name) := by
  constructor
  · intro α taken base
    have hsize : taken.keys.length = taken.size := by simp [Dict.keys, Dict.size]
    refine ⟨Naming.unique_not_mem _ _, fun hfree => by simp [unique, hfree], ?_⟩
    intro htaken
    obtain ⟨n, hn, heq⟩ := Naming.exists_isLeast_renumbered taken.keys base
    refine ⟨n, hn, hsize ▸ Naming.isLeast_free_le hn, by simpa [unique, htaken] using heq, ?_⟩
    intro tries htries
    rw [← heq]
    exact Naming.search_eq_renumbered (hsize ▸ htries)
  · intro r l base origin qualifier owner hp hl ho
    refine ⟨_, Registry.declare_eq_disambiguate hl ho hp, Registry.disambiguate_not_mem owner,
      ?_, ?_⟩
    · rintro label rfl hlabel
      exact Registry.disambiguate_of_tellsApart hlabel
    · intro hlabel
      obtain ⟨n, hn, heq⟩ := Naming.exists_isLeast_renumbered r.names base
      rw [Registry.disambiguate_of_not_tellsApart hlabel]
      exact ⟨n, hn, heq, fun _ => Naming.search_eq_renumbered⟩

theorem addresses_renamed :
    let l (document : Nat) (key : String) := (Location.root document).join (.definition key)
    let r := ({} : Registry).afterAll
      [.declare (l 0 "a") "Address" "a" none, .declare (l 0 "b") "Address2" "b" none]
    ∃ r', r.declare (l 1 "a") "Address" "c" (some "shipping") =
        .ok ("ShippingAddress", r', [.renamed "Address" "a" "c" "ShippingAddress"]) ∧
      ∃ name r'', r'.declare (l 1 "b") "Address" "d" (some "shipping") =
        .ok (name, r'', [.renamed "Address" "a" "d" name]) ∧ name = "Address3" ∧
          name ∉ r'.names := by
  intro l r
  obtain ⟨name, hdeclare, -, hlabel, -⟩ := renaming_minimal.2 r (l 1 "a") "Address" "c"
    (some "shipping") ⟨l 0 "a", "Address", "a"⟩ rfl (by decide +kernel) (by decide +kernel)
  have hexported : exported "shipping" = "Shipping" := by decide +kernel
  have hname := hlabel "shipping" rfl ⟨by decide, by rw [hexported]; decide, by
    rw [hexported]
    decide +kernel⟩
  rw [hexported] at hname
  subst hname
  refine ⟨_, hdeclare, ?_⟩
  obtain ⟨name, hdeclare', hfree, -, hnumber⟩ := renaming_minimal.2
    (r.record ⟨l 1 "a", "Shipping" ++ "Address", "c"⟩) (l 1 "b") "Address" "d" (some "shipping")
    ⟨l 0 "a", "Address", "a"⟩ rfl (by decide +kernel) (by decide +kernel)
  refine ⟨name, _, hdeclare', ?_, hfree⟩
  obtain ⟨n, -, -, hsearch⟩ := hnumber (by
    rintro label ⟨⟩ ⟨-, -, hfree⟩
    rw [hexported] at hfree
    exact hfree (by decide +kernel))
  have hthree := hsearch 4 (by decide +kernel)
  have hfound : search (r.record ⟨l 1 "a", "Shipping" ++ "Address", "c"⟩).names "Address" 4 =
      some "Address3" := by decide +kernel
  exact Option.some.inj (hthree.symm.trans hfound)

end SchemaStructs
