import SchemaStructs.Document
import SchemaStructs.Schema.Decode

namespace SchemaStructs

inductive FileContent where
  | missing
  | directory
  | bytes (content : ByteArray)

def FileContent.text : FileContent → Except FileFault String
  | missing => .error .missing
  | directory => .error .directory
  | bytes content =>
    match String.fromUTF8? content with
    | some text => .ok text
    | none => .error .notText

namespace Document

def ofText (source text : String) : Except LoadError Document := do
  let root ← (Schema.ofText text).mapError .json
  ofSchema source root

/-- The name of a file without its last point and what follows it. A point at the very start is
part of the name. -/
def fileStem (name : String) : String :=
  match name.toList.reverse.dropWhile (· != '.') with
  | _ :: c :: cs => String.ofList (c :: cs).reverse
  | _ => name

def ofFile (name : String) (content : FileContent) : Except LoadError Document := do
  let text ← content.text.mapError .file
  let d ← ofText (fileStem name) text
  return d.addAlias name

end Document

end SchemaStructs
