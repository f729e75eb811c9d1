import SchemaStructs.Registry

namespace SchemaStructs

structure Options where
  policy : CollisionPolicy := .disambiguate
  /-- Whether a struct may contain itself, directly or through others. -/
  recursive : Bool := true
  /-- Names a root without a title in a document without an identity. -/
  rootName : String := "Root"
  deriving DecidableEq

end SchemaStructs
