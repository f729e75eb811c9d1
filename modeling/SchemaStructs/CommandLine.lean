import SchemaStructs.Compile
import SchemaStructs.Listing
import SchemaStructs.Sample

namespace SchemaStructs.CommandLine

structure Exit where
  code : Nat
  output : String
  errors : String

/-- The text up to the end of its first line, which is a line feed, with or without a carriage
return before it. A carriage return elsewhere belongs to the line. -/
def firstLine : List Char → List Char
  | [] => []
  | '\n' :: _ => []
  | '\r' :: '\n' :: _ => []
  | c :: rest => c :: firstLine rest

def Exit.headline (e : Exit) : String :=
  String.ofList (firstLine e.errors.toList)

def failure (headline cause : String) : Exit :=
  ⟨1, "", "Error: " ++ headline ++ "\n\nCaused by:\n    " ++ cause ++ "\n"⟩

def fileName (path : String) : String :=
  String.ofList
    ((Text.dropEndWhile (· == '/') path.toList).reverse.takeWhile (· != '/')).reverse

def load : List (String × FileContent) → Except (String × LoadError) (List Document)
  | [] => .ok []
  | (path, content) :: rest => do
    let d ← (Document.ofFile (fileName path) content).mapError (path, ·)
    let ds ← load rest
    return d :: ds

def loadSamples : Except (String × LoadError) (List Document) := do
  let orders ← (Document.ofSchema "orders" Sample.orders.schema).mapError ("orders", ·)
  let customers ← (Document.ofSchema "customers" Sample.customers.schema).mapError ("customers", ·)
  return [orders, customers]

def run (files : List (String × FileContent)) : Exit :=
  match if files.isEmpty then loadSamples else load files with
  | .error (path, e) => failure ("failed to load schema " ++ path) e.message
  | .ok documents =>
    match (compile {} documents).result with
    | .error e => failure "compilation failed" e.message
    | .ok structs => ⟨0, structs.listing, ""⟩

end SchemaStructs.CommandLine
