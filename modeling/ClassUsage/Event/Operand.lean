import ClassUsage.Event.Basic

/-!
The operands of an event as a flat list, in the order a listener is given them, and when two
operands are the same: types, type paths, handles and attributes by value, labels by position,
instructions, frame kinds and truth values as the numbers they stand for.
-/
namespace ClassUsage

namespace Value

def text (s : String) : Value := .plain (.string s)

def truth (b : Bool) : Value := .plain (.bool b)

def integer : Integer → Value
  | .number n => .plain (.int n)
  | .truth b => .plain (.bool b)

def absent : Value := .plain .null

def optional {α : Type} (f : α → Value) : Option α → Value
  | some a => f a
  | none => absent

def texts (l : List String) : Value := .list (l.map text)

def labels (l : List Label) : Value := .list (l.map label)

def instruction : Instruction → Value
  | .opcode o => .opcode o
  | .number n => integer n

def frameForm : FrameForm → Value
  | .kind k => .frame k
  | .number n => integer n

/-- The number an operand stands for. -/
def number? : Value → Option Int
  | .plain (.int n) => some n
  | .plain (.bool b) => some (if b then 1 else 0)
  | .opcode o => some o.number
  | .frame k => some k.number
  | _ => none

def sameHandle (a b : Handle) : Bool :=
  a.tag.value = b.tag.value && a.owner = b.owner && a.name = b.name && a.desc = b.desc
    && a.isInterface = b.isInterface

def samePlain : Value → Value → Bool
  | .plain .null, .plain .null => true
  | .plain (.string s), .plain (.string t) => s = t
  | .plain (.float x), .plain (.float y) => x.same y
  | .plain (.float x), b => b.number?.any x.eqInt
  | a, .plain (.float y) => a.number?.any y.eqInt
  | a, b => a.number?.isSome && a.number? = b.number?

mutual

def same : Value → Value → Bool
  | .type s, .type t => s = t
  | .typePath p, .typePath q => p = q
  | .attribute a, .attribute b => a = b
  | .handle a, .handle b => sameHandle a b
  | .label a, .label b => a.same b
  | .list a, .list b => sameLists a b
  | a, b => samePlain a b

def sameLists : List Value → List Value → Bool
  | [], [] => true
  | a :: as, b :: bs => same a b && sameLists as bs
  | _, _ => false

end

end Value

/-- The opcode that a value is the same as. -/
def Opcode.ofValue? (v : Value) : Option Opcode := all.find? fun o => Value.same (.opcode o) v

/-- The kind of frame that a value is the same as. -/
def FrameKind.ofValue? (v : Value) : Option FrameKind := all.find? fun k => Value.same (.frame k) v

def AnnotationHead.operands (a : AnnotationHead) : List Value := [.text a.desc, .truth a.visible]

def TypeAnnotationHead.operands (a : TypeAnnotationHead) : List Value :=
  [.integer a.typeRef, .optional .typePath a.path, .text a.desc, .truth a.visible]

def ClassEvent.operands : ClassEvent → List Value
  | .header version access name signature superName interfaces =>
    [.integer version, .integer access, .text name, .optional .text signature,
      .optional .text superName, .optional .texts interfaces]
  | .source file debug => [.optional .text file, .optional .text debug]
  | .moduleInfo name access version => [.text name, .integer access, .optional .text version]
  | .nestHost name => [.text name]
  | .outerClass owner name desc => [.text owner, .optional .text name, .optional .text desc]
  | .annotated a => a.operands
  | .typeAnnotated a => a.operands
  | .attribute a => [.attribute a]
  | .nestMember name => [.text name]
  | .permittedSubclass name => [.text name]
  | .innerClass name outer inner access =>
    [.text name, .optional .text outer, .optional .text inner, .integer access]
  | .recordComponent name desc signature => [.text name, .text desc, .optional .text signature]
  | .field access name desc signature value =>
    [.integer access, .text name, .text desc, .optional .text signature, value]
  | .method access name desc signature exceptions =>
    [.integer access, .text name, .text desc, .optional .text signature,
      .optional .texts exceptions]
  | .finish => []

def FieldEvent.operands : FieldEvent → List Value
  | .annotated a => a.operands
  | .typeAnnotated a => a.operands
  | .attribute a => [.attribute a]
  | .finish => []

def MethodEvent.operands : MethodEvent Label → List Value
  | .parameter name access => [.optional .text name, .integer access]
  | .defaultValue => []
  | .annotated a => a.operands
  | .typeAnnotated a => a.operands
  | .annotableParameters count visible => [.integer count, .truth visible]
  | .parameterAnnotated index a => .integer index :: a.operands
  | .attribute a => [.attribute a]
  | .code => []
  | .frame form localCount locals stackCount stack =>
    [.frameForm form, .integer localCount, .list locals, .integer stackCount, .list stack]
  | .plain op => [.instruction op]
  | .number op operand => [.instruction op, .integer operand]
  | .slot op index => [.instruction op, .integer index]
  | .type op desc => [.instruction op, .text desc]
  | .field op owner name desc => [.instruction op, .text owner, .text name, .text desc]
  | .method op owner name desc isInterface =>
    [.instruction op, .text owner, .text name, .text desc, .truth isInterface]
  | .dynamicCall name desc bootstrap arguments =>
    [.text name, .text desc, bootstrap.getD .absent] ++ arguments
  | .jump op target => [.instruction op, .label target]
  | .label l => [.label l]
  | .constant c => [c]
  | .increment index amount => [.integer index, .integer amount]
  | .table low high default targets =>
    [.integer low, .integer high, .label default] ++ targets.map .label
  | .lookup default keys targets => [.label default, .list (keys.map .integer), .labels targets]
  | .arrayType desc dimensions => [.text desc, .integer dimensions]
  | .instructionAnnotated a => a.operands
  | .handler start stop target caught =>
    [.label start, .label stop, .label target, .optional .text caught]
  | .handlerAnnotated a => a.operands
  | .localVariable name desc signature start stop index =>
    [.text name, .text desc, .optional .text signature, .label start, .label stop, .integer index]
  | .localVariableAnnotated a starts stops indices =>
    [.integer a.typeRef, .optional .typePath a.path, .labels starts, .labels stops,
      .list (indices.map .integer), .text a.desc, .truth a.visible]
  | .line n start => [.integer n, .label start]
  | .limits stack locals => [.integer stack, .integer locals]
  | .finish => []

def ValueEvent.operands : ValueEvent → List Value
  | .constant name c => [.optional .text name, c]
  | .enumConstant name desc value => [.optional .text name, .text desc, .text value]
  | .nested name desc => [.optional .text name, .text desc]
  | .array name => [.optional .text name]
  | .finish => []

def Event.operands : Event Label → List Value
  | .classFile e => e.operands
  | .field e => e.operands
  | .method e => e.operands
  | .value e => e.operands

end ClassUsage
