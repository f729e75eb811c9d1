import SchemaStructs.LoadError
import SchemaStructs.Schema.Node
import SchemaStructs.Text.Blank

namespace SchemaStructs

structure Document where
  id : String
  aliases : List String := []
  root : Schema

namespace Document

/-- Removes blanks around an identity, and then every `#` at its end. -/
def normalizeId (id : String) : String :=
  String.ofList (Text.dropEndWhile (· == '#') (Text.trim id.toList))

def declaredId? (root : Schema) : Option String :=
  (root.node.head.id.map normalizeId).filter fun id => !id.isEmpty

/-- A document is known by the identity it declares, otherwise by the name of its source. Every
definition in it must have a name. -/
def ofSchema (source : String) (root : Schema) : Except LoadError Document :=
  let id := (declaredId? root).getD (normalizeId source)
  match root.node.unnamedDefinition? with
  | some pointer => .error (.unnamedDefinition id pointer)
  | none => .ok { id, root }

def declaresId (d : Document) : Bool := (declaredId? d.root).isSome

def addAlias (d : Document) (name : String) : Document :=
  let name := normalizeId name
  if d.declaresId || name.isEmpty || name == d.id then d
  else { d with aliases := d.aliases ++ [name] }

def isIdentifiedBy (d : Document) (id : String) : Bool :=
  let id := normalizeId id
  !id.isEmpty && (d.id == id || d.aliases.contains id)

def lookup (d : Document) (p : Pointer) : Option Node := d.root.node.lookup p

def definitions (d : Document) : List Pointer := d.root.node.index

def lastPart (cs : List Char) : List Char :=
  (cs.reverse.takeWhile fun c => c != '/' && c != ':').reverse

def stem (d : Document) : Option String :=
  let part := lastPart (Text.dropEndWhile (· == '/') d.id.toList)
  let stem := part.takeWhile (· != '.')
  if stem.isEmpty then none else some (String.ofList stem)

end Document

end SchemaStructs
