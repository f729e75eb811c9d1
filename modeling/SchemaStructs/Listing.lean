import SchemaStructs.Struct

namespace SchemaStructs

def Field.tag (f : Field) : String :=
  if f.required || f.jsonName == "-" then f.jsonName else f.jsonName ++ ",omitempty"

def Field.listing (f : Field) : String :=
  "    " ++ f.name ++ " " ++ f.type.text ++ " `json:\"" ++ f.tag ++ "\"`\n"

def Struct.listing (s : Struct) : String :=
  "// " ++ s.name ++ " (" ++ s.origin ++ ")\n"
    ++ "type " ++ s.name ++ " struct \x7b\n"
    ++ String.join (s.fields.values.map Field.listing)
    ++ "\x7d\n\n"

def StructMap.listing (structs : StructMap) : String :=
  String.join (structs.values.map Struct.listing)
    ++ structs.size.repr ++ " struct(s) generated\n"

end SchemaStructs
