import ClassUsage.Log
import ClassUsage.Mention

/-!
Collecting names. Mentions are taken up one after the other; a mention that cannot be resolved adds
nothing and ends the call it belongs to. A name is logged when it is new.
-/
namespace ClassUsage

/-- What taking up mentions did: the names known afterwards, those that were new, in the order they
were logged, and the fault that ended it. -/
structure Intake where
  names : NameSet
  found : List String
  fault : Option Fault
  deriving Repr

def takeUp (known : NameSet) : List Mention → Intake
  | [] => ⟨known, [], none⟩
  | m :: rest =>
    match m.resolve with
    | .ok new =>
      let after := takeUp (known ∪ new) rest
      ⟨after.names, new.newIn known ++ after.found, after.fault⟩
    | .error f => ⟨known, [], some f⟩

variable {L : Type}

/-- What is logged of an event before its names. -/
def Event.announced : Event L → Option LogEntry
  | .classFile (.header _ _ name _ _ _) => some (.header name)
  | .classFile (.method _ name desc _ _) => some (.method name desc)
  | .method (.type op desc) => some (.typeUse op desc)
  | _ => none

/-- Something noticed, the names it added and the fault it led to. -/
structure Observation (L : Type) where
  notice : Notice L
  added : List String
  fault : Option Fault
  deriving Repr

def Observation.log (o : Observation L) : List LogEntry :=
  match o.notice with
  | .warning w => [.warning w]
  | .event e => e.announced.toList ++ o.added.map .dependency

/-- What a collector made of a playback. -/
structure Reading (L : Type) where
  observed : List (Observation L)
  names : NameSet
  fault : Option Fault
  deriving Repr

def Reading.log (r : Reading L) : List LogEntry := r.observed.flatMap Observation.log

def Reading.cons (o : Observation L) (r : Reading L) : Reading L :=
  ⟨o :: r.observed, r.names, r.fault⟩

/-- Collect the names of events until one leads to a fault; `ending` is the fault after the last. -/
def collect (ending : Option Fault) (known : NameSet) : List (Notice L) → Reading L
  | [] => ⟨[], known, ending⟩
  | .warning w :: rest => .cons ⟨.warning w, [], none⟩ (collect ending known rest)
  | .event e :: rest =>
    let intake := takeUp known e.mentions
    let o : Observation L := ⟨.event e, intake.found, intake.fault⟩
    match intake.fault with
    | some f => ⟨[o], intake.names, some f⟩
    | none => .cons o (collect ending intake.names rest)

/-- Collect the names of a whole playback. -/
def Playback.collect (known : NameSet) (p : Playback L) : Reading L :=
  ClassUsage.collect p.fault known p.notices

end ClassUsage
