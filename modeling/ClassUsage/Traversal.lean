import ClassUsage.Event.Labels
import ClassUsage.Trace.Fault

/-!
A way through a class: events one after the other, each with the way through the scope it opens, up
to the end or to a fault. A listener that does not want a scope is led past it, so nothing that is
wrong inside is noticed.
-/
namespace ClassUsage

/-- Keys of an element of the document that no trace has. -/
structure Warning where
  element : String
  keys : List String
  deriving DecidableEq, Repr

def Warning.message (w : Warning) : String :=
  s!"{w.element}: ignoring unrecognised keys {Json.textListLiteral w.keys}"

inductive Traversal (L : Type) where
  | done
  | fail (f : Fault)
  | warn (w : Warning) (next : Traversal L)
  | visit (e : Event L) (body next : Traversal L)
  deriving Repr

namespace Traversal

variable {L M : Type}

/-- One way after the other. -/
def append : Traversal L → Traversal L → Traversal L
  | .done, t => t
  | .fail f, _ => .fail f
  | .warn w next, t => .warn w (append next t)
  | .visit e body next, t => .visit e body (append next t)

instance : Append (Traversal L) := ⟨append⟩

/-- An event that opens no scope. -/
def event (e : Event L) : Traversal L := .visit e .done .done

/-- An event and the scope it opens. -/
def scope (e : Event L) (body : Traversal L) : Traversal L := .visit e body .done

/-- The way that a checked value leads, or its fault. -/
def check {α : Type} (r : Except Fault α) (f : α → Traversal L) : Traversal L :=
  match r with
  | .ok a => f a
  | .error e => .fail e

def each {α : Type} (l : List α) (f : α → Traversal L) : Traversal L :=
  match l with
  | [] => .done
  | a :: rest => f a ++ each rest f

/-- All labels, in the order met when every scope is wanted. -/
def labels : Traversal L → List L
  | .done => []
  | .fail _ => []
  | .warn _ next => next.labels
  | .visit e body next => e.labels ++ body.labels ++ next.labels

def map (f : L → M) : Traversal L → Traversal M
  | .done => .done
  | .fail e => .fail e
  | .warn w next => .warn w (next.map f)
  | .visit e body next => .visit (e.map f) (body.map f) (next.map f)

end Traversal

/-- What a listener notices. -/
inductive Notice (L : Type) where
  | warning (w : Warning)
  | event (e : Event L)
  deriving Repr

/-- What came of going through a class: all that was noticed, and the fault that ended it. -/
structure Playback (L : Type) where
  notices : List (Notice L)
  fault : Option Fault
  deriving Repr

namespace Playback

variable {L : Type}

def nothing : Playback L := ⟨[], none⟩

/-- What comes after is noticed only if there was no fault. -/
def andThen (a b : Playback L) : Playback L :=
  match a.fault with
  | some _ => a
  | none => ⟨a.notices ++ b.notices, b.fault⟩

def cons (n : Notice L) (p : Playback L) : Playback L := ⟨n :: p.notices, p.fault⟩

def events (p : Playback L) : List (Event L) :=
  p.notices.filterMap fun
    | .event e => some e
    | .warning _ => none

def warnings (p : Playback L) : List Warning :=
  p.notices.filterMap fun
    | .event _ => none
    | .warning w => some w

end Playback

/-- What a listener notices that wants the scopes of certain events. -/
def Traversal.play {L : Type} (wanted : Event L → Bool) : Traversal L → Playback L
  | .done => .nothing
  | .fail f => ⟨[], some f⟩
  | .warn w next => .cons (.warning w) (next.play wanted)
  | .visit e body next =>
    .cons (.event e)
      ((if wanted e then body.play wanted else .nothing).andThen (next.play wanted))

end ClassUsage
