import SchemaStructs.CompileError
import SchemaStructs.Document
import SchemaStructs.Location

namespace SchemaStructs

structure Target where
  location : Location
  node : Node

namespace Reference

def split (reference : String) : List Char × List Char :=
  let cs := reference.toList
  (cs.takeWhile (· != '#'), (cs.dropWhile (· != '#')).drop 1)

def documentId (documents : List Document) (i : Nat) : String :=
  (documents[i]?.map Document.id).getD ""

def nodeAt? (documents : List Document) (l : Location) : Option Node :=
  documents[l.document]?.bind fun d => d.lookup l.pointer

/-- Finds the target of a reference in the document numbered `current`. Without a document part
it lies in the same document, otherwise in the first document with that identity. A target that
is a reference itself is not followed. -/
def resolve (documents : List Document) (reference : String) (current : Nat) :
    Except CompileError Target :=
  let unresolved fault :=
    .error (.unresolvedReference reference (documentId documents current) fault)
  let (identity, fragment) := split reference
  let document :=
    if identity.isEmpty then some current
    else documents.findIdx? fun d => d.isIdentifiedBy (String.ofList identity)
  match document with
  | none => unresolved (.unknownIdentity (String.ofList identity))
  | some document =>
    match Pointer.ofFragment? fragment with
    | none => unresolved .unsupportedSyntax
    | some pointer =>
      match nodeAt? documents ⟨document, pointer⟩ with
      | none => unresolved (.noNode pointer)
      | some node => .ok ⟨⟨document, pointer⟩, node⟩

end Reference

end SchemaStructs
