import ClassUsage.Event.Basic

/-!
The labels of an event, in the order of its operands, and the same event with other labels.
-/
namespace ClassUsage

variable {L M : Type}

namespace MethodEvent

def labels : MethodEvent L → List L
  | .jump _ target => [target]
  | .label l => [l]
  | .table _ _ default targets => default :: targets
  | .lookup default _ targets => default :: targets
  | .handler start stop target _ => [start, stop, target]
  | .localVariable _ _ _ start stop _ => [start, stop]
  | .localVariableAnnotated _ starts stops _ => starts ++ stops
  | .line _ start => [start]
  | _ => []

def map (f : L → M) : MethodEvent L → MethodEvent M
  | .parameter name access => .parameter name access
  | .defaultValue => .defaultValue
  | .annotated a => .annotated a
  | .typeAnnotated a => .typeAnnotated a
  | .annotableParameters count visible => .annotableParameters count visible
  | .parameterAnnotated index a => .parameterAnnotated index a
  | .attribute a => .attribute a
  | .code => .code
  | .frame form localCount locals stackCount stack => .frame form localCount locals stackCount stack
  | .plain op => .plain op
  | .number op operand => .number op operand
  | .slot op index => .slot op index
  | .type op desc => .type op desc
  | .field op owner name desc => .field op owner name desc
  | .method op owner name desc isInterface => .method op owner name desc isInterface
  | .dynamicCall name desc bootstrap arguments => .dynamicCall name desc bootstrap arguments
  | .jump op target => .jump op (f target)
  | .label l => .label (f l)
  | .constant c => .constant c
  | .increment index amount => .increment index amount
  | .table low high default targets => .table low high (f default) (targets.map f)
  | .lookup default keys targets => .lookup (f default) keys (targets.map f)
  | .arrayType desc dimensions => .arrayType desc dimensions
  | .instructionAnnotated a => .instructionAnnotated a
  | .handler start stop target caught => .handler (f start) (f stop) (f target) caught
  | .handlerAnnotated a => .handlerAnnotated a
  | .localVariable name desc signature start stop index =>
    .localVariable name desc signature (f start) (f stop) index
  | .localVariableAnnotated a starts stops indices =>
    .localVariableAnnotated a (starts.map f) (stops.map f) indices
  | .line n start => .line n (f start)
  | .limits stack locals => .limits stack locals
  | .finish => .finish

end MethodEvent

namespace Event

def labels : Event L → List L
  | .method e => e.labels
  | _ => []

def map (f : L → M) : Event L → Event M
  | .classFile e => .classFile e
  | .field e => .field e
  | .method e => .method (e.map f)
  | .value e => .value e

end Event

end ClassUsage
