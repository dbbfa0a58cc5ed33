import ClassUsage.Traversal

/-!
What is logged, with the level and the text of each entry.
-/
namespace ClassUsage

inductive Level where
  | debug | info | warning | error
  deriving DecidableEq, Repr

def Level.word : Level → String
  | .debug => "DEBUG"
  | .info => "INFO"
  | .warning => "WARNING"
  | .error => "ERROR"

def Level.rank : Level → Nat
  | .debug => 0
  | .info => 1
  | .warning => 2
  | .error => 3

inductive LogEntry where
  | ready
  | replaying (name : String)
  | warning (w : Warning)
  | header (name : String)
  | method (name desc : String)
  | typeUse (op : Instruction) (desc : String)
  | dependency (name : String)
  | total (name : String) (count : Nat)
  | failure (path message : String)
  | noTraces
  deriving DecidableEq, Repr

namespace LogEntry

def level : LogEntry → Level
  | .warning _ => .warning
  | .failure .. => .error
  | .noTraces => .error
  | _ => .debug

def message : LogEntry → String
  | .ready => "Logging initialized (debug=True)"
  | .replaying name => s!"REPLAY {name}"
  | .warning w => w.message
  | .header name => s!"CLASS {name}"
  | .method name desc => s!"METHOD {name}{desc}"
  | .typeUse op desc => s!"TYPE {op.text} {desc}"
  | .dependency name => s!"DEP {name}"
  | .total name count => s!"{name}: {count} dependencies"
  | .failure path message => s!"{path}: {message}"
  | .noTraces => "no trace files given"

end LogEntry

/-- The entries of a log that are shown from a level on. -/
def shown (least : Level) (log : List LogEntry) : List LogEntry :=
  log.filter fun e => least.rank ≤ e.level.rank

end ClassUsage
