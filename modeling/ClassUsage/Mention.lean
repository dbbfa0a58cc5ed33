import ClassUsage.Event.Basic
import ClassUsage.Signature.Scanner
import ClassUsage.Trace.Fault

/-!
Where events name classes: by internal name, in a descriptor, in a signature, by a constant, or in
a list that is taken as it is. A signature stands for the descriptor beside it.
-/
namespace ClassUsage

inductive Mention where
  | internal (name : String)
  | descriptor (desc : String)
  | signature (kind : SignatureKind) (text : String)
  | constant (c : Value)
  | verbatim (names : List String)
  deriving Repr

/-- The classes a mention names. Of constants, only types name any. -/
def Mention.resolve : Mention → Except Fault NameSet
  | .internal name => .ok (.singleton (className name))
  | .descriptor desc => (decodeDescriptor desc).mapError .decoding
  | .signature kind text => (decodeSignature kind text).mapError .decoding
  | .constant (.type t) => t.classNames.mapError .type
  | .constant _ => .ok ∅
  | .verbatim names => .ok (.ofList names)

/-- The type of a field or of a local variable: its signature, or else its descriptor. -/
def typeMention (signature : Option String) (desc : String) : Mention :=
  match signature with
  | some s => .signature .type s
  | none => .descriptor desc

/-- The operand of an instruction that takes a class, which for an array is a descriptor. -/
def ownerMention (name : String) : Mention :=
  if name.toList.head? = some '[' then .descriptor name else .internal name

def ClassEvent.mentions : ClassEvent → List Mention
  | .header _ _ _ none superName interfaces =>
    (superName.toList ++ interfaces.getD []).map .internal
  | .header _ _ _ (some signature) _ _ => [.signature .classFile signature]
  | .annotated a => [.descriptor a.desc]
  | .typeAnnotated a => [.descriptor a.desc]
  | .field _ _ desc signature value => [typeMention signature desc, .constant value]
  | .method _ _ desc none exceptions =>
    .descriptor desc :: (exceptions.getD []).map .internal
  | .method _ _ _ (some signature) exceptions =>
    .signature .method signature :: (exceptions.getD []).map .internal
  | _ => []

def FieldEvent.mentions : FieldEvent → List Mention
  | .annotated a => [.descriptor a.desc]
  | .typeAnnotated a => [.descriptor a.desc]
  | _ => []

def MethodEvent.mentions {L : Type} : MethodEvent L → List Mention
  | .annotated a => [.descriptor a.desc]
  | .typeAnnotated a => [.descriptor a.desc]
  | .parameterAnnotated _ a => [.descriptor a.desc]
  | .instructionAnnotated a => [.descriptor a.desc]
  | .handlerAnnotated a => [.descriptor a.desc]
  | .localVariableAnnotated a _ _ _ => [.descriptor a.desc]
  | .type _ desc => [ownerMention desc]
  | .field _ owner _ _ => [.internal owner]
  | .method _ owner _ _ _ => [ownerMention owner]
  | .constant c => [.constant c]
  | .arrayType desc _ => [.descriptor desc]
  | .handler _ _ _ caught => caught.toList.map .internal
  | .localVariable _ desc signature _ _ _ => [typeMention signature desc]
  | _ => []

def ValueEvent.mentions : ValueEvent → List Mention
  | .constant _ c => [.constant c]
  | .enumConstant _ desc _ => [.descriptor desc]
  | .nested _ desc => [.descriptor desc]
  | _ => []

/-- Where an event names classes, in the order they are taken up. -/
def Event.mentions {L : Type} : Event L → List Mention
  | .classFile e => e.mentions
  | .field e => e.mentions
  | .method e => e.mentions
  | .value e => e.mentions

end ClassUsage
