import ClassUsage.Command.Batch
import ClassUsage.Command.Options

/-!
A run of the program: what it writes to its two outputs, and how it ends.
-/
namespace ClassUsage.Command

/-- A run ends with the status of its work, already on its command line, or where a path could not
be asked for. -/
inductive Ending where
  | finished (status : Nat)
  | onCommandLine (status : Nat)
  | brokenOff (f : LoadFault)
  deriving Repr

def Ending.status : Ending → Nat
  | .finished n => n
  | .onCommandLine n => n
  | .brokenOff _ => 1

structure Outcome where
  output : String
  errors : String
  ending : Ending
  deriving Repr

def Options.config (o : Options) : Config where
  debug := o.debug
  format := if o.json then .json else .text
  excludeSelf := !o.includeSelf

def logText (debug : Bool) (log : List LogEntry) : String :=
  String.join ((shown (if debug then .debug else .info) log).map fun e =>
    s!"[{e.level.word}] {e.message}\n")

/-- What the program says about itself and the platform it runs on. -/
def infoText (platform : String) : String :=
  "Class Dependency Analyzer\n0.1.0\nstatic,bytecode\n" ++ platform ++ "\n"

def runOptions (platform : String) (read : FileReader) (o : Options) : Outcome :=
  if o.info then ⟨infoText platform, logText o.debug [.ready], .finished 0⟩
  else
    let b := analyzeFiles read o.config o.traces
    let ending := match b.status with
      | some n => .finished n
      | none => .brokenOff .unusablePath
    ⟨b.output, logText o.debug (.ready :: b.log), ending⟩

def run (platform : String) (read : FileReader) (args : List String) : Outcome :=
  match parse args with
  | .error e => ⟨"", usage ++ s!"bytecode-deps: error: {e.message}\n", .onCommandLine 2⟩
  | .ok .help => ⟨helpText, "", .onCommandLine 0⟩
  | .ok (.run o) => runOptions platform read o

/-- The paths a run reads. -/
def pathsToRead (args : List String) : List Path :=
  match parse args with
  | .ok (.run o) => if o.info then [] else o.traces.map .ofString
  | _ => []

end ClassUsage.Command
