namespace SchemaStructs

inductive Primitive where
  | string
  | integer
  | number
  | boolean
  deriving DecidableEq

namespace Primitive

def ofTypeName? (name : String) : Option Primitive :=
  if name = "string" then some string
  else if name = "integer" then some integer
  else if name = "number" then some number
  else if name = "boolean" then some boolean
  else none

def text : Primitive → String
  | string => "string"
  | integer => "int"
  | number => "float64"
  | boolean => "bool"

end Primitive

inductive TypeDesc where
  | primitive (p : Primitive)
  | slice (element : TypeDesc)
  | map (value : TypeDesc)
  | struct (name : String)
  | any
  deriving DecidableEq

def TypeDesc.text : TypeDesc → String
  | primitive p => p.text
  | slice element => "[]" ++ element.text
  | map value => "map[string]" ++ value.text
  | struct name => "*" ++ name
  | any => "any"

end SchemaStructs
