import ClassUsage.Collector
import ClassUsage.Trace.Elements

/-!
The classes a recorded class uses, with the log of how they were found.
-/
namespace ClassUsage

/-- What came of going through a recorded class from the given names on: the names known
afterwards, what was logged, and the fault that ended it. -/
structure Replay where
  names : NameSet
  log : List LogEntry
  fault : Option Fault
  deriving Repr

def Trace.collect (known : NameSet) (t : Trace) : Reading Label :=
  (t.traversal.play fun _ => true).collect known

def Trace.replay (known : NameSet) (t : Trace) : Replay :=
  let r := t.collect known
  ⟨r.names, .replaying t.name :: r.log, r.fault⟩

structure Analysis where
  log : List LogEntry
  result : Except Fault NameSet

/-- Find the classes a recorded class uses. -/
def Trace.analyze (t : Trace) : Analysis :=
  let r := t.replay ∅
  match r.fault with
  | some f => ⟨r.log, .error f⟩
  | none => ⟨r.log ++ [.total t.name r.names.size], .ok r.names⟩

/-- The origin of a document that was not read from a file. -/
def noOrigin : String := "<trace>"

end ClassUsage
