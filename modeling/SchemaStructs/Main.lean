import SchemaStructs.CommandLine

/-- What stands under a path. Whatever cannot be read, though it is there, counts as a directory. -/
def SchemaStructs.CommandLine.readContent (path : String) : IO SchemaStructs.FileContent := do
  try
    let content ← IO.FS.readBinFile path
    return .bytes content
  catch
    | .noFileOrDirectory .. => return .missing
    | _ => return .directory

def main (paths : List String) : IO UInt32 := do
  let files ← paths.mapM fun path =>
    return (path, ← SchemaStructs.CommandLine.readContent path)
  let result := SchemaStructs.CommandLine.run files
  (← IO.getStdout).putStr result.output
  (← IO.getStderr).putStr result.errors
  return result.code.toUInt32
