import ClassUsage.Trace.Annotations

/-!
The code of a method in a trace: exception handlers, instructions and the marks between them, local
variables, limits. Labels are names here.
-/
namespace ClassUsage

open Traversal

def unknownInstruction {α : Type} (name : String) : Except Fault α :=
  .error (.trace (.unknownInstruction name))

def readOpcode (m : Members) : Except Fault Opcode := do
  let name ← m.required .text "op"
  match Opcode.ofName? name with
  | some op => return op
  | none => unknownInstruction name

def readFrameKind (m : Members) : Except Fault FrameKind := do
  let name ← m.required .text "frame"
  match FrameKind.ofMnemonic? name with
  | some kind => return kind
  | none => .error (.trace (.unknownFrame name))

/-- The bootstrap method of a dynamic call, which may be absent. -/
def readBootstrap (bootstrap : Option Members) : Except Fault (Option Value) :=
  match bootstrap with
  | some m => (readTagged m).map some
  | none => .ok none

/-- The event of an instruction. Operands are looked up in a fixed order, so that of two faults the
same one is found. -/
def readOperands (m : Members) (op : Opcode) : Except Fault (MethodEvent String) :=
  match op.operands with
  | .number => return .number (.opcode op) (← m.required .integer "operand")
  | .slot => return .slot (.opcode op) (← m.required .integer "var")
  | .type => return .type (.opcode op) (← m.required .text "type")
  | .field => do
    let owner ← m.required .text "owner"
    let name ← m.required .text "name"
    let desc ← m.required .text "desc"
    return .field (.opcode op) owner name desc
  | .method => do
    let isInterface ← m.orElse .truth "itf" (op = .invokeinterface)
    let owner ← m.required .text "owner"
    let name ← m.required .text "name"
    let desc ← m.required .text "desc"
    return .method (.opcode op) owner name desc isInterface
  | .label => return .jump (.opcode op) (← m.required .text "label")
  | .constant => return .constant (← readConstant (← m.requiredValue "value"))
  | .increment => do
    let index ← m.required .integer "var"
    let amount ← m.required .integer "increment"
    return .increment index amount
  | .table => do
    let targets ← m.requiredEntries .text "labels"
    let low ← m.required .integer "min"
    let high ← m.required .integer "max"
    let default ← m.required .text "default"
    return .table low high default targets
  | .lookup => do
    let targets ← m.requiredEntries .text "labels"
    let default ← m.required .text "default"
    let keys ← m.requiredEntries .integer "keys"
    return .lookup default keys targets
  | .dynamicCall => do
    let bootstrap ← m.optional .object "bootstrap"
    let arguments ← readConstants (← m.orElse .list "bootstrap_args" [])
    let name ← m.required .text "name"
    let desc ← m.required .text "desc"
    return .dynamicCall name desc (← readBootstrap bootstrap) arguments
  | .arrayType => do
    let desc ← m.required .text "desc"
    let dimensions ← m.required .integer "dims"
    return .arrayType desc dimensions
  | .nothing => .ok (.plain (.opcode op))

def readInstruction (m : Members) : Except Fault (MethodEvent String) := do
  readOperands m (← readOpcode m)

/-- The event of an entry that is no instruction: a line number, a label or a stack frame. -/
def readPosition (m : Members) : Except Fault (MethodEvent String) :=
  if m.hasKey "line" then do
    let line ← m.required .integer "line"
    let start ← m.required .text "label"
    return .line line start
  else if m.hasKey "label" then return .label (← m.required .text "label")
  else if m.hasKey "frame" then do
    let locals ← m.orElse .list "local" []
    let stack ← m.orElse .list "stack" []
    let kind ← readFrameKind m
    return .frame (.kind kind) (.number locals.length) (locals.map .plain) (.number stack.length)
      (stack.map .plain)
  else .error (.trace (.unknownCodeEntry (.object m)))

def codeEntryEvents (m : Members) : Traversal String :=
  if m.hasKey "op" then
    check (readInstruction m) fun e =>
      event (.method e) ++
        annotationEvents m "annotations" readTypeAnnotationHead
          fun a => .method (.instructionAnnotated a)
  else check (readPosition m) fun e => event (.method e)

def readHandler (m : Members) : Except Fault (MethodEvent String) := do
  let start ← m.required .text "start"
  let stop ← m.required .text "end"
  let target ← m.required .text "handler"
  let caught ← m.optional .text "type"
  return .handler start stop target caught

def handlerEvents (m : Members) : Traversal String :=
  check (readHandler m) fun e =>
    event (.method e) ++
      annotationEvents m "annotations" readTypeAnnotationHead fun a => .method (.handlerAnnotated a)

/-- A local variable: where it lives, then what it is. -/
structure LocalVariable where
  start : String
  stop : String
  index : Integer
  name : String
  desc : String
  signature : Option String

def readLocalVariable (m : Members) : Except Fault LocalVariable := do
  let start ← m.required .text "start"
  let stop ← m.required .text "end"
  let index ← m.orElse .integer "index" (.number 0)
  let name ← m.required .text "name"
  let desc ← m.required .text "desc"
  let signature ← m.optional .text "signature"
  return ⟨start, stop, index, name, desc, signature⟩

def localVariableEvents (m : Members) : Traversal String :=
  check (readLocalVariable m) fun v =>
    event (.method (.localVariable v.name v.desc v.signature v.start v.stop v.index)) ++
      annotationEvents m "annotations" readTypeAnnotationHead
        fun a => .method (.localVariableAnnotated a [v.start] [v.stop] [v.index])

def readLimits (m : Members) : Except Fault (MethodEvent String) := do
  let limits ← m.orElse .object "maxs" []
  let stack ← limits.orElse .integer "max_stack" (.number 0)
  let locals ← limits.orElse .integer "max_locals" (.number 0)
  return .limits stack locals

/-- The way through the code of a method. -/
def codeEvents (m : Members) : Traversal String :=
  event (.method .code) ++
    check (m.entries .object "try_catch") (each · handlerEvents) ++
    check (m.entries .object "code") (each · codeEntryEvents) ++
    check (m.entries .object "local_variables") (each · localVariableEvents) ++
    check (readLimits m) fun e => event (.method e)

end ClassUsage
