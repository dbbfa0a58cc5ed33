import ClassUsage.Descriptor.Reader

/-!
Type constants: the types a constant pool can hold, stored as descriptors. One made from a text that
was not checked can lack a sort or a name; the accessors say so.
-/
namespace ClassUsage

structure TypeConstant where
  descriptor : String
  deriving DecidableEq, Repr

inductive TypeSort where
  | void | boolean | char | byte | short | int | float | long | double | array | object | method
  deriving DecidableEq, Repr

def TypeSort.word : TypeSort → String
  | .void => "VOID"
  | .boolean => "BOOLEAN"
  | .char => "CHAR"
  | .byte => "BYTE"
  | .short => "SHORT"
  | .int => "INT"
  | .float => "FLOAT"
  | .long => "LONG"
  | .double => "DOUBLE"
  | .array => "ARRAY"
  | .object => "OBJECT"
  | .method => "METHOD"

def TypeSort.number : TypeSort → Nat
  | .void => 0
  | .boolean => 1
  | .char => 2
  | .byte => 3
  | .short => 4
  | .int => 5
  | .float => 6
  | .long => 7
  | .double => 8
  | .array => 9
  | .object => 10
  | .method => 11

def Primitive.sort : Primitive → TypeSort
  | .byte => .byte
  | .char => .char
  | .double => .double
  | .float => .float
  | .int => .int
  | .long => .long
  | .short => .short
  | .boolean => .boolean

/-- What an unchecked type constant lacks. -/
inductive TypeFault where
  | empty
  /-- No type starts like this. -/
  | unknownCode (code : Char)
  /-- No primitive type is written like this. -/
  | unknownPrimitive (descriptor : String)
  deriving DecidableEq, Repr

def TypeFault.message : TypeFault → String
  | .empty => "string index out of range"
  | .unknownCode code => Text.quoted code.toString
  | .unknownPrimitive descriptor => Text.quoted descriptor

namespace TypeConstant

/-- The type of a descriptor. -/
def ofDescriptor (descriptor : String) : Except DecodingError TypeConstant :=
  (Descriptor.parse descriptor).map fun _ => ⟨descriptor⟩

/-- The type of an internal name, which for an array is its descriptor. -/
def ofInternalName (name : String) : Except DecodingError TypeConstant :=
  if name.toList.head? = some '[' then ofDescriptor name
  else ofDescriptor (String.ofList ('L' :: (name.toList ++ [';'])))

/-- The type of a method descriptor. -/
def ofMethodDescriptor (descriptor : String) : Except DecodingError TypeConstant :=
  if descriptor.toList.head? = some '(' then ofDescriptor descriptor
  else .error ⟨descriptor, 0, .noParameterList⟩

def ofReturnType (t : ReturnType) : TypeConstant := ⟨t.render⟩

/-- The first character of a descriptor decides the sort of its type. -/
def sort (t : TypeConstant) : Except TypeFault TypeSort :=
  match t.descriptor.toList with
  | [] => .error .empty
  | '(' :: _ => .ok .method
  | '[' :: _ => .ok .array
  | 'L' :: _ => .ok .object
  | 'V' :: _ => .ok .void
  | c :: _ =>
    match Primitive.ofCode? c with
    | some p => .ok p.sort
    | none => .error (.unknownCode c)

def dimensions (t : TypeConstant) : Nat := (t.descriptor.toList.takeWhile (· == '[')).length

/-- The type under all array dimensions. -/
def elementType (t : TypeConstant) : TypeConstant :=
  ⟨String.ofList (t.descriptor.toList.dropWhile (· == '['))⟩

/-- What stands between the first and the last character of a descriptor. -/
def inside (t : TypeConstant) : List Char := (t.descriptor.toList.drop 1).dropLast

/-- The internal name of an object type; other types go by their descriptor. -/
def internalName (t : TypeConstant) : Except TypeFault String :=
  match t.sort with
  | .ok .object => .ok (String.ofList t.inside)
  | .ok _ => .ok t.descriptor
  | .error f => .error f

def primitiveKeyword (descriptor : String) : Except TypeFault String :=
  match descriptor.toList with
  | ['V'] => .ok "void"
  | [c] =>
    match Primitive.ofCode? c with
    | some p => .ok p.keyword
    | none => .error (.unknownPrimitive descriptor)
  | _ => .error (.unknownPrimitive descriptor)

/-- The name in source code of a type that is no array. -/
def elementName (t : TypeConstant) : Except TypeFault String :=
  match t.sort with
  | .ok .object => .ok (dotted t.inside)
  | .ok .method => .ok t.descriptor
  | .ok _ => primitiveKeyword t.descriptor
  | .error f => .error f

/-- The name of a type in source code. -/
def sourceName (t : TypeConstant) : Except TypeFault String :=
  match t.sort with
  | .ok .array =>
    t.elementType.elementName.map (· ++ String.join (List.replicate t.dimensions "[]"))
  | _ => t.elementName

/-- The class names a type constant stands for: that of an object type, also under array
dimensions. -/
def classNames (t : TypeConstant) : Except TypeFault NameSet :=
  let ofElement (e : TypeConstant) : Except TypeFault NameSet :=
    match e.sort with
    | .ok .object => .ok (.singleton (dotted e.inside))
    | .ok _ => .ok ∅
    | .error f => .error f
  match t.sort with
  | .ok .array => ofElement t.elementType
  | _ => ofElement t

end TypeConstant

end ClassUsage
