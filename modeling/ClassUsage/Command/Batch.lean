import ClassUsage.Analysis
import ClassUsage.File.Load
import ClassUsage.Report

/-!
Analysing several files. Each file gives a block of output or an error, whatever became of the
others; the status says whether all went well. Only a path that no system can be asked for stops the
whole batch.
-/
namespace ClassUsage

/-- What came of one file: what was logged, and its output unless it failed. -/
structure Block where
  log : List LogEntry
  output : Option String

def analyzeFile (read : FileReader) (c : Config) (path : String) : Block :=
  match loadTrace read (.ofString path) with
  | .error f => ⟨[.failure path f.message], none⟩
  | .ok t =>
    let a := t.analyze
    match a.result with
    | .error f => ⟨a.log ++ [.failure path f.message], none⟩
    | .ok names => ⟨a.log, some (t.outputText c names)⟩

/-- What came of a batch. It has no status if a path that cannot be asked for broke it off. -/
structure Batch where
  output : String
  log : List LogEntry
  status : Option Nat

def isUsablePath (path : String) : Bool := (Path.ofString path).isUsable

def analyzeFiles (read : FileReader) (c : Config) (paths : List String) : Batch :=
  let blocks := (paths.takeWhile isUsablePath).map (analyzeFile read c)
  { output := String.join (blocks.filterMap Block.output)
    log := blocks.flatMap Block.log ++ (if paths.isEmpty then [.noTraces] else [])
    status :=
      if paths.isEmpty then some 2
      else if !paths.all isUsablePath then none
      else if blocks.all fun b => b.output.isSome then some 0
      else some 1 }

end ClassUsage
