import ClassUsage.Event.Labels
import ClassUsage.Event.Operand

/-!
What each event declares its operands to be. The operands of an event are a flat list of values of any
kind; `Parameters.admit` compares them with the declared shapes. An event is proper if what its
constructor leaves open is as declared: the opcode, the frame, and the values taken from a document.
-/
namespace ClassUsage

section Kinds

namespace Value

def isInteger : Value → Bool
  | .plain (.int _) => true
  | .plain (.bool _) => true
  | _ => false

def isTruth : Value → Bool
  | .plain (.bool _) => true
  | _ => false

def isText : Value → Bool
  | .plain (.string _) => true
  | _ => false

def isAbsent : Value → Bool
  | .plain .null => true
  | _ => false

end Value

def Json.isObject : Json → Bool
  | .object _ => true
  | _ => false

end Kinds

section Shapes

/-- What an operand can be declared as. -/
inductive Shape where
  | integer
  | truth
  | text
  | typePath
  | attribute
  | label
  | frame
  /-- An opcode with operands of one kind. -/
  | opcode (kind : OperandKind)
  /-- A type constant whose descriptor can be decoded. -/
  | type
  | handle
  /-- A value of a document. -/
  | verbatim
  /-- A value of a document that is no object. -/
  | literal
  | optional (s : Shape)
  | sequence (s : Shape)
  | either (s s' : Shape)
  deriving DecidableEq, Repr

namespace Shape

/-- A type constant or a handle. -/
def reference : Shape := .either .type .handle

/-- A constant: a reference, or a value of a document that is no object. -/
def constant : Shape := .either .reference .literal

/-- The value is what the shape asks for. -/
def admits : Shape → Value → Bool
  | .integer, v => v.isInteger
  | .truth, v => v.isTruth
  | .text, v => v.isText
  | .typePath, .typePath _ => true
  | .attribute, .attribute _ => true
  | .label, .label _ => true
  | .frame, .frame _ => true
  | .opcode kind, .opcode op => op.operands = kind
  | .type, .type t => (decodeDescriptor t.descriptor).isOk
  | .handle, .handle h =>
    (Value.integer h.tag).isInteger && (Value.text h.owner).isText && (Value.text h.name).isText &&
      (Value.text h.desc).isText && (Value.truth h.isInterface).isTruth
  | .verbatim, .plain _ => true
  | .literal, .plain v => !v.isObject
  | .optional s, v => v.isAbsent || s.admits v
  | .sequence s, .list items => items.all fun v => s.admits v
  | .either s s', v => s.admits v || s'.admits v
  | _, _ => false

section Admits

variable {α : Type} {s : Shape}

@[simp] theorem admits_integer (n : Integer) : integer.admits (.integer n) = true := by
  cases n <;> rfl

@[simp] theorem admits_truth (b : Bool) : truth.admits (.truth b) = true := by
  simp [admits, Value.isTruth, Value.truth]

@[simp] theorem admits_text (text : String) : Shape.text.admits (.text text) = true := by
  simp [admits, Value.isText, Value.text]

@[simp] theorem admits_typePath (p : TypePath) : typePath.admits (.typePath p) = true := by
  simp [admits]

@[simp] theorem admits_attribute (a : Attribute) : attribute.admits (.attribute a) = true := by
  simp [admits]

@[simp] theorem admits_label (l : Label) : label.admits (.label l) = true := by
  simp [admits]

theorem admits_handle (h : Handle) : handle.admits (.handle h) = true := by
  have htag : (Value.integer h.tag).isInteger = true := admits_integer h.tag
  simp [admits, htag, Value.isText, Value.text, Value.isTruth, Value.truth]

theorem admits_either {s' : Shape} {v : Value} :
    (either s s').admits v = true ↔ s.admits v = true ∨ s'.admits v = true := by
  simp [admits]

@[simp] theorem admits_optional {f : α → Value} {o : Option α} (h : ∀ a ∈ o, s.admits (f a) = true) :
    (optional s).admits (.optional f o) = true := by
  cases o with
  | none => rfl
  | some a => simp [admits, Value.optional, h a rfl]

@[simp] theorem admits_sequence {items : List Value} (h : ∀ v ∈ items, s.admits v = true) :
    (sequence s).admits (.list items) = true := by
  simpa [admits] using h

end Admits

end Shape

end Shapes

section Declarations

open Shape

/-- The shapes of the operands of an event: those of the first ones, and that of all further ones if
there can be any. -/
structure Parameters where
  fixed : List Shape
  rest : Option Shape
  deriving DecidableEq, Repr

/-- The operands have the declared shapes, each at its place. -/
@[simp] def admitAll (rest : Option Shape) : List Shape → List Value → Bool
  | [], vs =>
    match rest with
    | some s => vs.all s.admits
    | none => vs.isEmpty
  | _ :: _, [] => false
  | s :: ss, v :: vs => s.admits v && admitAll rest ss vs

@[simp] def Parameters.admit (p : Parameters) (operands : List Value) : Bool :=
  admitAll p.rest p.fixed operands

/-- So many operands, and no more. -/
@[simp] def exactly (fixed : List Shape) : Parameters := ⟨fixed, none⟩

/-- So many operands, and then any number of one shape. -/
@[simp] def thenAny (fixed : List Shape) (rest : Shape) : Parameters := ⟨fixed, some rest⟩

def annotationShapes : List Shape := [.text, .truth]

def typeAnnotationShapes : List Shape := [.integer, .optional .typePath, .text, .truth]

def ClassEvent.parameters : ClassEvent → Parameters
  | .header .. =>
    exactly [.integer, .integer, .text, .optional .text, .optional .text, .optional (.sequence .text)]
  | .source .. => exactly [.optional .text, .optional .text]
  | .moduleInfo .. => exactly [.text, .integer, .optional .text]
  | .nestHost _ => exactly [.text]
  | .outerClass .. => exactly [.text, .optional .text, .optional .text]
  | .annotated _ => exactly annotationShapes
  | .typeAnnotated _ => exactly typeAnnotationShapes
  | .attribute _ => exactly [.attribute]
  | .nestMember _ => exactly [.text]
  | .permittedSubclass _ => exactly [.text]
  | .innerClass .. => exactly [.text, .optional .text, .optional .text, .integer]
  | .recordComponent .. => exactly [.text, .text, .optional .text]
  | .field .. => exactly [.integer, .text, .text, .optional .text, .constant]
  | .method .. =>
    exactly [.integer, .text, .text, .optional .text, .optional (.sequence .text)]
  | .finish => exactly []

def FieldEvent.parameters : FieldEvent → Parameters
  | .annotated _ => exactly annotationShapes
  | .typeAnnotated _ => exactly typeAnnotationShapes
  | .attribute _ => exactly [.attribute]
  | .finish => exactly []

/-- Only switches and dynamic calls take any number of operands. -/
def MethodEvent.parameters {L : Type} : MethodEvent L → Parameters
  | .parameter .. => exactly [.optional .text, .integer]
  | .defaultValue => exactly []
  | .annotated _ => exactly annotationShapes
  | .typeAnnotated _ => exactly typeAnnotationShapes
  | .annotableParameters .. => exactly [.integer, .truth]
  | .parameterAnnotated .. => exactly (.integer :: annotationShapes)
  | .attribute _ => exactly [.attribute]
  | .code => exactly []
  | .frame .. => exactly [.frame, .integer, .sequence .verbatim, .integer, .sequence .verbatim]
  | .plain _ => exactly [.opcode .nothing]
  | .number .. => exactly [.opcode .number, .integer]
  | .slot .. => exactly [.opcode .slot, .integer]
  | .type .. => exactly [.opcode .type, .text]
  | .field .. => exactly [.opcode .field, .text, .text, .text]
  | .method .. => exactly [.opcode .method, .text, .text, .text, .truth]
  | .dynamicCall .. => thenAny [.text, .text, .optional .reference] .constant
  | .jump .. => exactly [.opcode .label, .label]
  | .label _ => exactly [.label]
  | .constant _ => exactly [.constant]
  | .increment .. => exactly [.integer, .integer]
  | .table .. => thenAny [.integer, .integer, .label] .label
  | .lookup .. => exactly [.label, .sequence .integer, .sequence .label]
  | .arrayType .. => exactly [.text, .integer]
  | .instructionAnnotated _ => exactly typeAnnotationShapes
  | .handler .. => exactly [.label, .label, .label, .optional .text]
  | .handlerAnnotated _ => exactly typeAnnotationShapes
  | .localVariable .. => exactly [.text, .text, .optional .text, .label, .label, .integer]
  | .localVariableAnnotated .. =>
    exactly [.integer, .optional .typePath, .sequence .label, .sequence .label, .sequence .integer,
      .text, .truth]
  | .line .. => exactly [.integer, .label]
  | .limits .. => exactly [.integer, .integer]
  | .finish => exactly []

def ValueEvent.parameters : ValueEvent → Parameters
  | .constant .. => exactly [.optional .text, .constant]
  | .enumConstant .. => exactly [.optional .text, .text, .text]
  | .nested .. => exactly [.optional .text, .text]
  | .array _ => exactly [.optional .text]
  | .finish => exactly []

/-- What an event declares its operands to be. -/
def Event.parameters {L : Type} : Event L → Parameters
  | .classFile e => e.parameters
  | .field e => e.parameters
  | .method e => e.parameters
  | .value e => e.parameters

/-- The numbers of entries that a frame gives are those of its lists. -/
def Event.CountsEntries {L : Type} : Event L → Prop
  | .method (.frame _ localCount locals stackCount stack) =>
    localCount.value = locals.length ∧ stackCount.value = stack.length
  | _ => True

end Declarations

section Proper

variable {L M : Type}

/-- The instruction is an opcode with operands of the given kind. -/
def Instruction.Takes (op : Instruction) (kind : OperandKind) : Prop :=
  Shape.admits (.opcode kind) (.instruction op) = true

theorem takes_opcode {op : Opcode} {kind : OperandKind} (h : op.operands = kind) :
    (Instruction.opcode op).Takes kind := by
  simp [Instruction.Takes, Value.instruction, Shape.admits, h]

/-- What the constructor of an event leaves open is as declared. -/
def Event.Proper : Event L → Prop
  | .classFile (.field _ _ _ _ c) => Shape.constant.admits c = true
  | .method (.frame form localCount locals stackCount stack) =>
    Shape.frame.admits (.frameForm form) = true ∧
      (∀ v ∈ locals, Shape.verbatim.admits v = true) ∧ (∀ v ∈ stack, Shape.verbatim.admits v = true) ∧
      localCount.value = locals.length ∧ stackCount.value = stack.length
  | .method (.plain op) => op.Takes .nothing
  | .method (.number op _) => op.Takes .number
  | .method (.slot op _) => op.Takes .slot
  | .method (.type op _) => op.Takes .type
  | .method (.field op _ _ _) => op.Takes .field
  | .method (.method op _ _ _ _) => op.Takes .method
  | .method (.jump op _) => op.Takes .label
  | .method (.dynamicCall _ _ bootstrap arguments) =>
    (∀ b ∈ bootstrap, Shape.reference.admits b = true) ∧
      ∀ v ∈ arguments, Shape.constant.admits v = true
  | .method (.constant c) => Shape.constant.admits c = true
  | .value (.constant _ c) => Shape.constant.admits c = true
  | _ => True

namespace Event

theorem proper_map (f : L → M) (e : Event L) : (e.map f).Proper ↔ e.Proper := by
  rcases e with e | e | e | e <;> cases e <;> rfl

theorem countsEntries_of_proper {e : Event L} (h : e.Proper) : e.CountsEntries := by
  unfold CountsEntries
  split
  · exact h.2.2.2
  · trivial

end Event

@[simp] theorem AnnotationHead.admitted (a : AnnotationHead) :
    admitAll none annotationShapes a.operands = true := by
  simp [annotationShapes, AnnotationHead.operands]

@[simp] theorem TypeAnnotationHead.admitted (a : TypeAnnotationHead) :
    admitAll none typeAnnotationShapes a.operands = true := by
  simp [typeAnnotationShapes, TypeAnnotationHead.operands]

theorem ClassEvent.admit_of_proper {e : ClassEvent} (h : (Event.classFile e : Event Label).Proper) :
    e.parameters.admit e.operands = true := by
  cases e with
  | field access name desc signature c =>
    have hc : Shape.constant.admits c = true := h
    simp [parameters, operands, hc]
  | _ => simp [parameters, operands, Value.texts]

theorem FieldEvent.admit (e : FieldEvent) : e.parameters.admit e.operands = true := by
  cases e <;> simp [parameters, operands]

theorem MethodEvent.admit_of_proper {e : MethodEvent Label} (h : (Event.method e).Proper) :
    e.parameters.admit e.operands = true := by
  cases e with
  | frame form localCount locals stackCount stack =>
    obtain ⟨hform, hlocals, hstack, -⟩ := h
    simp [parameters, operands, hform, Shape.admits_sequence hlocals, Shape.admits_sequence hstack]
  | plain op | number op _ | slot op _ | type op _ | field op _ _ _ | method op _ _ _ _ | jump op _ =>
    have hop := h
    simp only [Event.Proper, Instruction.Takes] at hop
    simp [parameters, operands, hop]
  | dynamicCall name desc bootstrap arguments =>
    obtain ⟨hbootstrap, harguments⟩ := h
    have hgiven : bootstrap.getD .absent = .optional id bootstrap := by cases bootstrap <;> rfl
    have hreference : (Shape.optional .reference).admits (.optional id bootstrap) = true :=
      Shape.admits_optional hbootstrap
    simpa [parameters, operands, hgiven, hreference] using harguments
  | constant c =>
    have hc : Shape.constant.admits c = true := h
    simp [parameters, operands, hc]
  | _ => simp [parameters, operands, Value.labels]

theorem ValueEvent.admit_of_proper {e : ValueEvent} (h : (Event.value e : Event Label).Proper) :
    e.parameters.admit e.operands = true := by
  cases e with
  | constant name c =>
    have hc : Shape.constant.admits c = true := h
    simp [parameters, operands, hc]
  | _ => simp [parameters, operands]

/-- The operands of a proper event have their declared shapes. -/
theorem Event.admit_of_proper {e : Event Label} (h : e.Proper) :
    e.parameters.admit e.operands = true := by
  cases e with
  | classFile e => exact ClassEvent.admit_of_proper h
  | field e => exact FieldEvent.admit e
  | method e => exact MethodEvent.admit_of_proper h
  | value e => exact ValueEvent.admit_of_proper h

end Proper

end ClassUsage
