import ClassUsage.Event.Value
import ClassUsage.Trace.Fault

/-!
Checked look-ups in a document. A key that is absent and a key whose value is null are the same; a
value of the wrong kind is a fault. The entries of a list are all checked before one is used.
-/
namespace ClassUsage

/-- A kind of JSON value: how messages call it, and how a value of that kind is taken. -/
structure Kind (α : Type) where
  phrase : String
  read? : Json → Option α

namespace Kind

def text : Kind String where
  phrase := "a string"
  read?
    | .string s => some s
    | _ => none

/-- Integers; truth values count as such. -/
def integer : Kind Integer where
  phrase := "an integer"
  read?
    | .int n => some (.number n)
    | .bool b => some (.truth b)
    | _ => none

def truth : Kind Bool where
  phrase := "a boolean"
  read?
    | .bool b => some b
    | _ => none

def list : Kind (List Json) where
  phrase := "a list"
  read?
    | .list items => some items
    | _ => none

def object : Kind Members where
  phrase := "an object"
  read?
    | .object members => some members
    | _ => none

end Kind

/-- Read all entries of a list. The first of the wrong kind is the fault. -/
def readEntries {α : Type} (kind : Kind α) (key : String) : List Json → Except Fault (List α)
  | [] => .ok []
  | v :: rest =>
    match kind.read? v with
    | some a =>
      match readEntries kind key rest with
      | .ok as => .ok (a :: as)
      | .error f => .error f
    | none => .error (.trace (.wrongEntry key kind.phrase v))

namespace Members

variable {α : Type}

/-- The value of a key, if there is one and it is not null. -/
def get? (m : Members) (key : String) : Option Json :=
  match m.find? key with
  | some .null => none
  | r => r

/-- A value that may be absent. -/
def optional (m : Members) (kind : Kind α) (key : String) : Except Fault (Option α) :=
  match m.get? key with
  | none => .ok none
  | some v =>
    match kind.read? v with
    | some a => .ok (some a)
    | none => .error (.trace (.wrongKind key kind.phrase v))

/-- A value that must be there. -/
def required (m : Members) (kind : Kind α) (key : String) : Except Fault α :=
  match m.optional kind key with
  | .ok (some a) => .ok a
  | .ok none => .error (.trace (.missingKey key))
  | .error f => .error f

/-- A value that may be absent, with what stands for it then. -/
def orElse (m : Members) (kind : Kind α) (key : String) (default : α) : Except Fault α :=
  (m.optional kind key).map (·.getD default)

/-- A list of entries of one kind that may be absent. -/
def optionalEntries (m : Members) (kind : Kind α) (key : String) : Except Fault (Option (List α)) :=
  match m.optional .list key with
  | .ok none => .ok none
  | .ok (some items) => (readEntries kind key items).map some
  | .error f => .error f

/-- A list of entries of one kind; an absent list is empty. -/
def entries (m : Members) (kind : Kind α) (key : String) : Except Fault (List α) :=
  (m.optionalEntries kind key).map (·.getD [])

/-- A list of entries of one kind that must be there. -/
def requiredEntries (m : Members) (kind : Kind α) (key : String) : Except Fault (List α) :=
  match m.required .list key with
  | .ok items => readEntries kind key items
  | .error f => .error f

/-- A value of any kind that must be there. -/
def requiredValue (m : Members) (key : String) : Except Fault Json :=
  match m.get? key with
  | some v => .ok v
  | none => .error (.trace (.missingKey key))

end Members

end ClassUsage
