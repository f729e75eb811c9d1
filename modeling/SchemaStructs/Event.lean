import SchemaStructs.Location
import SchemaStructs.Pointer.Fragment

namespace SchemaStructs

inductive Level where
  | trace
  | debug
  | warn
  deriving DecidableEq

def Level.text : Level → String
  | trace => "trace"
  | debug => "debug"
  | warn => "warn"

inductive Event where
  | resolved (reference document : String) (target : Location)
  | renamed (base owner origin name : String)
  | registered (name : String) (fields : Nat) (origin : String)
  | compiled (roots definitions structs : Nat)
  deriving DecidableEq

namespace Event

def level : Event → Level
  | resolved .. => .trace
  | renamed .. => .warn
  | registered .. => .debug
  | compiled .. => .debug

def message : Event → String
  | resolved reference document target =>
    "Resolved '" ++ reference ++ "' from '" ++ document ++ "' to document #"
      ++ target.document.repr ++ " at " ++ target.pointer.text
  | renamed base owner origin name =>
    "Type name '" ++ base ++ "' already used by " ++ owner ++ "; naming " ++ origin ++ " '"
      ++ name ++ "'"
  | registered name fields origin =>
    "Registered struct " ++ name ++ " (" ++ fields.repr ++ " fields) from " ++ origin
  | compiled roots definitions structs =>
    "Compiled " ++ roots.repr ++ " root schema(s) with " ++ definitions.repr
      ++ " definition(s) into " ++ structs.repr ++ " struct(s)"

end Event

end SchemaStructs
