import ClassUsage.Name.Dotted
import ClassUsage.Name.Set

/-!
Descriptors as trees: field types, which are arrays of a primitive or of an object type; what a
method returns; and method types. `chars` writes a tree down, `names` lists the classes in it.
-/
namespace ClassUsage

inductive Primitive where
  | byte | char | double | float | int | long | short | boolean
  deriving DecidableEq, Repr

namespace Primitive

def code : Primitive → Char
  | .byte => 'B'
  | .char => 'C'
  | .double => 'D'
  | .float => 'F'
  | .int => 'I'
  | .long => 'J'
  | .short => 'S'
  | .boolean => 'Z'

def keyword : Primitive → String
  | .byte => "byte"
  | .char => "char"
  | .double => "double"
  | .float => "float"
  | .int => "int"
  | .long => "long"
  | .short => "short"
  | .boolean => "boolean"

def ofCode? : Char → Option Primitive
  | 'B' => some .byte
  | 'C' => some .char
  | 'D' => some .double
  | 'F' => some .float
  | 'I' => some .int
  | 'J' => some .long
  | 'S' => some .short
  | 'Z' => some .boolean
  | _ => none

@[simp] theorem ofCode?_code (p : Primitive) : ofCode? p.code = some p := by cases p <;> rfl

theorem code_of_ofCode? {c : Char} {p : Primitive} (h : ofCode? c = some p) : p.code = c := by
  unfold ofCode? at h
  split at h <;> first | (cases h; rfl) | contradiction

end Primitive

/-- The name of a class as a descriptor holds it: not empty, and without the character that ends
it. -/
structure InternalName where
  chars : List Char
  ne_nil : chars ≠ []
  no_semicolon : ';' ∉ chars
  deriving DecidableEq, Repr

inductive Element where
  | primitive (p : Primitive)
  | object (name : InternalName)
  deriving DecidableEq, Repr

/-- A field type: an element type under a number of array dimensions. -/
structure FieldType where
  dimensions : Nat
  element : Element
  deriving DecidableEq, Repr

inductive ReturnType where
  | void
  | value (t : FieldType)
  deriving DecidableEq, Repr

structure MethodType where
  parameters : List FieldType
  result : ReturnType
  deriving DecidableEq, Repr

inductive Descriptor where
  | plain (t : ReturnType)
  | method (m : MethodType)
  deriving DecidableEq, Repr

namespace Element

def chars : Element → List Char
  | .primitive p => [p.code]
  | .object name => 'L' :: (name.chars ++ [';'])

def names : Element → List String
  | .primitive _ => []
  | .object name => [dotted name.chars]

end Element

namespace FieldType

def chars (t : FieldType) : List Char := List.replicate t.dimensions '[' ++ t.element.chars

def render (t : FieldType) : String := String.ofList t.chars

def names (t : FieldType) : List String := t.element.names

end FieldType

namespace ReturnType

def chars : ReturnType → List Char
  | .void => ['V']
  | .value t => t.chars

def render (t : ReturnType) : String := String.ofList t.chars

def names : ReturnType → List String
  | .void => []
  | .value t => t.names

end ReturnType

namespace MethodType

def chars (m : MethodType) : List Char :=
  '(' :: (m.parameters.flatMap FieldType.chars ++ ')' :: m.result.chars)

def names (m : MethodType) : List String := m.parameters.flatMap FieldType.names ++ m.result.names

end MethodType

namespace Descriptor

def chars : Descriptor → List Char
  | .plain t => t.chars
  | .method m => m.chars

def render (d : Descriptor) : String := String.ofList d.chars

def names : Descriptor → List String
  | .plain t => t.names
  | .method m => m.names

end Descriptor

end ClassUsage
