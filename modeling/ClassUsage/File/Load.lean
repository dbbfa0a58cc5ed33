import ClassUsage.File.Tree
import ClassUsage.Json.Reader
import ClassUsage.Text.Utf8
import ClassUsage.Trace.Elements

/-!
Loading a trace from a file: octets are read as UTF-8, line ends are made one, and the text is read
as JSON. Faults name the path they belong to.
-/
namespace ClassUsage

inductive LoadFault where
  | unusablePath
  | file (f : FileFault)
  | trace (e : TraceError)
  deriving Repr

def LoadFault.message : LoadFault → String
  | .unusablePath => "embedded null byte"
  | .file f => f.message
  | .trace e => e.message

def readDocument (origin : String) (bytes : List UInt8) : Except TraceError Json :=
  match Text.Utf8.decode bytes with
  | .error f => .error (.unreadable origin f.message)
  | .ok s =>
    let text := Text.unifyLineEnds s.toList
    match Json.parse text with
    | .ok v => .ok v
    | .error f => .error (.unreadable origin (f.message text))

def loadTrace (read : FileReader) (path : Path) : Except LoadFault Trace :=
  if path.isUsable then
    match read path with
    | .error p => .error (.file ⟨p, path⟩)
    | .ok bytes =>
      match readDocument path.toString bytes with
      | .error e => .error (.trace e)
      | .ok v => (Trace.ofJson path.toString v).mapError .trace
  else .error .unusablePath

end ClassUsage
