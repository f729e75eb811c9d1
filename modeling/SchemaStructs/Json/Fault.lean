namespace SchemaStructs.Json

inductive Fault where
  | endOfText
  | malformed
  | wrongForm
  deriving DecidableEq

end SchemaStructs.Json
