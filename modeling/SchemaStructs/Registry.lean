import SchemaStructs.CompileError
import SchemaStructs.Event
import SchemaStructs.Naming
import SchemaStructs.Struct

namespace SchemaStructs

inductive CollisionPolicy where
  | disambiguate
  | fail
  deriving DecidableEq

structure Declaration where
  location : Location
  name : String
  origin : String
  deriving DecidableEq

/-- The names given so far, and the structs finished so far. A node gets its name before its
fields are known, so that the fields can mention it. -/
structure Registry where
  policy : CollisionPolicy := .disambiguate
  declarations : List Declaration := []
  structs : StructMap := ∅

namespace Registry

def names (r : Registry) : List String := r.declarations.map Declaration.name

def owner? (r : Registry) (name : String) : Option Declaration :=
  r.declarations.find? fun d => d.name = name

def nameOf? (r : Registry) (l : Location) : Option String :=
  (r.declarations.find? fun d => d.location = l).map Declaration.name

def isDefined (r : Registry) (l : Location) : Bool :=
  match r.nameOf? l with
  | some name => r.structs.contains name
  | none => false

/-- Another name for a node whose own is owned. A node of another document than the owner's is
told apart by a name of its document, as long as that name is free; the others are numbered. -/
def disambiguate (r : Registry) (owner : Declaration) (l : Location) (base : String)
    (qualifier : Option String) : String :=
  let label := (qualifier.map Naming.exported).getD ""
  if owner.location.document ≠ l.document ∧ !label.isEmpty ∧ (r.owner? (label ++ base)).isNone then
    label ++ base
  else Naming.renumbered r.names base

def record (r : Registry) (d : Declaration) : Registry :=
  { r with declarations := r.declarations ++ [d] }

def declare (r : Registry) (l : Location) (base origin : String) (qualifier : Option String) :
    Except CompileError (String × Registry × List Event) :=
  match r.nameOf? l with
  | some name => .ok (name, r, [])
  | none =>
    match r.owner? base with
    | none => .ok (base, r.record ⟨l, base, origin⟩, [])
    | some owner =>
      match r.policy with
      | .fail => .error (.nameCollision base owner.origin origin)
      | .disambiguate =>
        let name := r.disambiguate owner l base qualifier
        .ok (name, r.record ⟨l, name, origin⟩, [.renamed base owner.origin origin name])

def define (r : Registry) (s : Struct) : Registry × List Event :=
  ({ r with structs := r.structs.insert s.name s },
    [.registered s.name s.fields.size s.origin])

end Registry

end SchemaStructs
