import ClassUsage.Command.Run

/-!
The command line program: reads the files a run needs, and writes what it says.
-/
namespace ClassUsage

/-- A path that leads through a file cannot be opened, and the error names it; a directory can be
opened but not read. -/
def problemOf : IO.Error → FileProblem
  | .noFileOrDirectory .. => .notFound
  | .inappropriateType (some _) .. => .notDirectory
  | .inappropriateType none .. => .isDirectory
  | .permissionDenied .. => .other "[Errno 13] Permission denied"
  | e => .other e.toString

def readFile (path : Path) : IO (Except FileProblem (List UInt8)) := do
  try
    let bytes ← IO.FS.readBinFile path.toString
    return .ok bytes.toList
  catch e => return .error (problemOf e)

def readFiles (paths : List Path) : IO FileReader := do
  let files ← paths.mapM fun p => return (p, ← readFile p)
  return fun p => (files.lookup p).getD (.error .notFound)

end ClassUsage

open ClassUsage in
def main (args : List String) : IO UInt32 := do
  let read ← readFiles (Command.pathsToRead args)
  let outcome := Command.run "unknown platform" read args
  (← IO.getStdout).putStr outcome.output
  (← IO.getStderr).putStr outcome.errors
  return outcome.ending.status.toUInt32
