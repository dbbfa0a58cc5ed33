import ClassUsage.Event.Value

/-!
What a listener is told while a class is gone through: events of the class itself, of a field, of a
method, and of an annotation. Some events open a scope of their own, whose events follow if the
listener wants them. Labels are a parameter: while code is read they are names, and positions
afterwards.
-/
namespace ClassUsage

/-- The scopes events belong to. -/
inductive Scope where
  | classFile | field | method | values
  deriving DecidableEq, Repr

/-- What an annotation of a declaration says before its values. -/
structure AnnotationHead where
  desc : String
  visible : Bool
  deriving DecidableEq, Repr

/-- What an annotation of a type says before its values. -/
structure TypeAnnotationHead where
  typeRef : Integer
  path : Option TypePath
  desc : String
  visible : Bool
  deriving DecidableEq, Repr

inductive ClassEvent where
  | header (version access : Integer) (name : String) (signature superName : Option String)
      (interfaces : Option (List String))
  | source (file debug : Option String)
  | moduleInfo (name : String) (access : Integer) (version : Option String)
  | nestHost (name : String)
  | outerClass (owner : String) (name desc : Option String)
  | annotated (a : AnnotationHead)
  | typeAnnotated (a : TypeAnnotationHead)
  | attribute (a : Attribute)
  | nestMember (name : String)
  | permittedSubclass (name : String)
  | innerClass (name : String) (outer inner : Option String) (access : Integer)
  | recordComponent (name desc : String) (signature : Option String)
  | field (access : Integer) (name desc : String) (signature : Option String) (value : Value)
  | method (access : Integer) (name desc : String) (signature : Option String)
      (exceptions : Option (List String))
  | finish
  deriving Repr

inductive FieldEvent where
  | annotated (a : AnnotationHead)
  | typeAnnotated (a : TypeAnnotationHead)
  | attribute (a : Attribute)
  | finish
  deriving Repr

inductive MethodEvent (L : Type) where
  | parameter (name : Option String) (access : Integer)
  | defaultValue
  | annotated (a : AnnotationHead)
  | typeAnnotated (a : TypeAnnotationHead)
  | annotableParameters (count : Integer) (visible : Bool)
  | parameterAnnotated (parameter : Integer) (a : AnnotationHead)
  | attribute (a : Attribute)
  | code
  | frame (form : FrameForm) (localCount : Integer) (locals : List Value) (stackCount : Integer)
      (stack : List Value)
  | plain (op : Instruction)
  | number (op : Instruction) (operand : Integer)
  | slot (op : Instruction) (index : Integer)
  | type (op : Instruction) (desc : String)
  | field (op : Instruction) (owner name desc : String)
  | method (op : Instruction) (owner name desc : String) (isInterface : Bool)
  | dynamicCall (name desc : String) (bootstrap : Option Value) (arguments : List Value)
  | jump (op : Instruction) (target : L)
  | label (l : L)
  | constant (c : Value)
  | increment (index amount : Integer)
  | table (low high : Integer) (default : L) (targets : List L)
  | lookup (default : L) (keys : List Integer) (targets : List L)
  | arrayType (desc : String) (dimensions : Integer)
  | instructionAnnotated (a : TypeAnnotationHead)
  | handler (start stop target : L) (caught : Option String)
  | handlerAnnotated (a : TypeAnnotationHead)
  | localVariable (name desc : String) (signature : Option String) (start stop : L)
      (index : Integer)
  | localVariableAnnotated (a : TypeAnnotationHead) (starts stops : List L)
      (indices : List Integer)
  | line (number : Integer) (start : L)
  | limits (stack locals : Integer)
  | finish
  deriving Repr

inductive ValueEvent where
  | constant (name : Option String) (c : Value)
  | enumConstant (name : Option String) (desc value : String)
  | nested (name : Option String) (desc : String)
  | array (name : Option String)
  | finish
  deriving Repr

inductive Event (L : Type) where
  | classFile (e : ClassEvent)
  | field (e : FieldEvent)
  | method (e : MethodEvent L)
  | value (e : ValueEvent)
  deriving Repr

namespace Event

variable {L : Type}

def scope : Event L → Scope
  | .classFile _ => .classFile
  | .field _ => .field
  | .method _ => .method
  | .value _ => .values

/-- The scope an event opens, if the listener wants it. -/
def opens : Event L → Option Scope
  | .classFile (.annotated _) => some .values
  | .classFile (.typeAnnotated _) => some .values
  | .classFile (.field ..) => some .field
  | .classFile (.method ..) => some .method
  | .field (.annotated _) => some .values
  | .field (.typeAnnotated _) => some .values
  | .method .defaultValue => some .values
  | .method (.annotated _) => some .values
  | .method (.typeAnnotated _) => some .values
  | .method (.parameterAnnotated ..) => some .values
  | .method (.instructionAnnotated _) => some .values
  | .method (.handlerAnnotated _) => some .values
  | .method (.localVariableAnnotated ..) => some .values
  | .value (.nested ..) => some .values
  | .value (.array _) => some .values
  | _ => none

end Event

end ClassUsage
