import SchemaStructs.Dict.Key

namespace SchemaStructs

inductive Segment where
  | definition (name : String)
  | property (name : String)
  | items
  | additional
  deriving DecidableEq

abbrev Pointer := List Segment

namespace Segment

def name? : Segment → Option String
  | definition name | property name => some name
  | items | additional => none

def place : Segment → Nat × String
  | definition name => (0, name)
  | property name => (1, name)
  | items => (2, "")
  | additional => (3, "")

theorem place_inj (s t : Segment) (h : s.place = t.place) : s = t := by
  cases s <;> cases t <;> simp_all [place]

instance : Key Segment := Key.through place place_inj

end Segment

namespace Pointer

def root : Pointer := []

def join (p : Pointer) (s : Segment) : Pointer := p ++ [s]

def key (p : Pointer) : Option String := p.reverse.findSome? Segment.name?

@[simp] theorem key_root : root.key = none := rfl

theorem key_join (p : Pointer) (s : Segment) : (p.join s).key = s.name?.or p.key := by
  simp [key, join, List.findSome?_cons]
  cases s.name? <;> rfl

end Pointer

end SchemaStructs
