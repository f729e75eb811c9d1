import SchemaStructs.Pointer.Fragment

namespace SchemaStructs

inductive ReferenceFault where
  | noDocument
  | unknownIdentity (identity : String)
  | unsupportedSyntax
  | noNode (pointer : Pointer)
  deriving DecidableEq

def ReferenceFault.message : ReferenceFault → String
  | noDocument => "no such document"
  | unknownIdentity identity => "no document with identity '" ++ identity ++ "'"
  | unsupportedSyntax => "unsupported pointer syntax"
  | noNode pointer => "no node at " ++ pointer.text

inductive CompileError where
  | unresolvedReference (reference document : String) (fault : ReferenceFault)
  | invalidShape (origin typeName : String)
  | cyclicReference (chain : List String)
  | nameCollision (name first second : String)
  | duplicateDocument (id : String)
  /-- The walk went deeper than its allowance. -/
  | tooDeep
  deriving DecidableEq

namespace CompileError

def unresolvedMessage (reference document reason : String) : String :=
  "unresolved reference '" ++ reference ++ "' in document '" ++ document ++ "': " ++ reason

def message : CompileError → String
  | unresolvedReference reference document fault =>
    unresolvedMessage reference document fault.message
  | invalidShape origin typeName =>
    "invalid schema shape at '" ++ origin ++ "': unrecognized type '" ++ typeName ++ "'"
  | cyclicReference chain => "cyclic reference detected: " ++ " -> ".intercalate chain
  | nameCollision name first second =>
    "type name '" ++ name ++ "' is claimed by both '" ++ first ++ "' and '" ++ second ++ "'"
  | duplicateDocument id => "duplicate document identity '" ++ id ++ "'"
  | tooDeep => "schemas nested too deeply"

end CompileError

end SchemaStructs
