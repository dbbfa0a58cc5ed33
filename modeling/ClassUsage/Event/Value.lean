import ClassUsage.Code.Opcode
import ClassUsage.Json.Basic
import ClassUsage.TypeConstant

/-!
The values events carry. Some operands are checked for their kind only by whoever makes the event: a
constant can be any value, and the number of an instruction need not be that of an opcode.
-/
namespace ClassUsage

/-- An integer; a truth value can stand for one. -/
inductive Integer where
  | number (n : Int)
  | truth (b : Bool)
  deriving DecidableEq, Repr

namespace Integer

def value : Integer → Int
  | .number n => n
  | .truth b => if b then 1 else 0

def text : Integer → String
  | .number n => toString n
  | .truth b => if b then "True" else "False"

end Integer

/-- The instruction an event tells of: an opcode, or a number that need not be that of one. -/
inductive Instruction where
  | opcode (op : Opcode)
  | number (n : Integer)
  deriving DecidableEq, Repr

def Instruction.text : Instruction → String
  | .opcode op => toString op.number
  | .number n => n.text

/-- The form of the stack frame an event tells of: a kind of frame, or a number that need not be
that of one. -/
inductive FrameForm where
  | kind (k : FrameKind)
  | number (n : Integer)
  deriving DecidableEq, Repr

/-- The way to an annotated type inside a larger one. -/
structure TypePath where
  path : String
  deriving DecidableEq, Repr

/-- An attribute of a class file that has no event of its own. -/
structure Attribute where
  name : String
  content : List UInt8
  deriving DecidableEq, Repr

/-- A reference to a field or a method. -/
structure Handle where
  tag : Integer
  owner : String
  name : String
  desc : String
  isInterface : Bool
  deriving DecidableEq, Repr

/-- A position in the code of a method. Two labels are the same if they belong to the same code and
have the same number there; the name is only carried along. -/
structure Label where
  code : Nat
  number : Nat
  name : Option String
  deriving DecidableEq, Repr

def Label.same (a b : Label) : Bool := a.code = b.code && a.number = b.number

/-- Any value that an event can carry. -/
inductive Value where
  /-- A value taken over from a document as it is. -/
  | plain (v : Json)
  | list (items : List Value)
  | type (t : TypeConstant)
  | typePath (p : TypePath)
  | attribute (a : Attribute)
  | handle (h : Handle)
  | label (l : Label)
  | opcode (o : Opcode)
  | frame (k : FrameKind)
  deriving Repr

end ClassUsage
