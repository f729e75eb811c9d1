import SchemaStructs.Dict
import SchemaStructs.TypeDesc

namespace SchemaStructs

structure Field where
  name : String
  /-- The key of the property, or `-` for the field that collects extra properties. -/
  jsonName : String
  type : TypeDesc
  required : Bool
  description : Option String := none
  deriving DecidableEq

structure Struct where
  name : String
  origin : String
  description : Option String := none
  fields : Dict String Field := ∅
  deriving DecidableEq

abbrev StructMap := Dict String Struct

namespace Struct

def field? (s : Struct) (name : String) : Option Field := s.fields.get? name

def isEmpty (s : Struct) : Bool := s.fields.isEmpty

end Struct

end SchemaStructs
