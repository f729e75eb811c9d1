import SchemaStructs.Json.Fault
import SchemaStructs.Pointer.Fragment

namespace SchemaStructs

inductive FileFault where
  | missing
  | directory
  | notText
  deriving DecidableEq

def FileFault.message : FileFault → String
  | missing => "No such file or directory (os error 2)"
  | directory => "Is a directory (os error 21)"
  | notText => "stream did not contain valid UTF-8"

inductive LoadError where
  | file (fault : FileFault)
  | json (fault : Json.Fault)
  | unnamedDefinition (document : String) (pointer : Pointer)
  deriving DecidableEq

namespace LoadError

def structureMessage (document reason : String) : String :=
  "invalid schema structure in '" ++ document ++ "': " ++ reason

def message : LoadError → String
  | file fault => "IO error: " ++ fault.message
  | json .endOfText => "unexpected end of text"
  | json .malformed => "malformed text"
  | json .wrongForm => "value of the wrong form"
  | unnamedDefinition document pointer =>
    structureMessage document ("empty definition key under " ++ pointer.text)

def compileMessage (message : String) : String := "schema parse error: " ++ message

end LoadError

end SchemaStructs
