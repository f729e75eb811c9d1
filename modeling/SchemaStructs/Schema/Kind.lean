import SchemaStructs.Schema.Node
import SchemaStructs.TypeDesc

namespace SchemaStructs

inductive Kind where
  | reference (text : String)
  | primitive (p : Primitive)
  | array (items : Option Node)
  /-- An object with declared properties, and with a schema for the others. -/
  | struct (extra : Option Node)
  /-- An object without declared properties, whose values are all of one schema or of any. -/
  | map (value : Option Node)
  | emptyObject
  | any

namespace Node

def objectKind (n : Node) : Kind :=
  match n.properties, n.extra? with
  | _ :: _, extra => .struct extra
  | [], some value => .map (some value)
  | [], none => if n.head.untypedExtra = some true then .map none else .emptyObject

def structuralKind? (n : Node) : Option Kind :=
  match n.items? with
  | some items => some (.array (some items))
  | none =>
    if n.properties.isEmpty && n.extra?.isNone && n.head.untypedExtra.isNone then none
    else some n.objectKind

/-- The kind of a node. A reference is nothing else, and an unknown type must be told by other
keywords. -/
def kind? (n : Node) : Option Kind :=
  match n.head.reference with
  | some text => some (.reference text)
  | none =>
    match Primitive.ofTypeName? n.typeName with
    | some p => some (.primitive p)
    | none =>
      if n.typeName = "array" then some (.array n.items?)
      else if n.typeName = "object" then some n.objectKind
      else if n.typeName = "" ∨ n.typeName = "null" then some (n.structuralKind?.getD .any)
      else n.structuralKind?

end Node

end SchemaStructs
