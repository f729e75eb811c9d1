import SchemaStructs.Pointer

namespace SchemaStructs

/-- The identity of a schema node: the number of its document and the way to it from the root. -/
structure Location where
  document : Nat
  pointer : Pointer
  deriving DecidableEq

namespace Location

def root (document : Nat) : Location := ⟨document, .root⟩

def join (l : Location) (s : Segment) : Location := ⟨l.document, l.pointer.join s⟩

end Location

end SchemaStructs
