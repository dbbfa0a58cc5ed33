import ClassUsage.Descriptor.Basic

/-!
Generic signatures as trees: types, type parameters, and the signatures of methods and classes.
`chars` writes a tree down, `names` lists the classes in it, and `erase` gives the descriptor that
is left of a type without its type arguments.
-/
namespace ClassUsage.Signature

/-- The characters that end an identifier. A slash is part of the name of an outermost class. -/
def isStop (c : Char) : Bool :=
  c = '.' || c = ';' || c = '[' || c = '/' || c = '<' || c = '>' || c = ':'

/-- What the name of an outermost class is made of. -/
def isPathChar (c : Char) : Bool := !isStop c || c = '/'

structure Identifier where
  chars : List Char
  ne_nil : chars ≠ []
  no_stop : ∀ c ∈ chars, isStop c = false
  deriving Repr

theorem Identifier.eq_of_chars {a b : Identifier} (h : a.chars = b.chars) : a = b := by
  cases a
  cases b
  cases h
  rfl

instance : DecidableEq Identifier := fun a b =>
  decidable_of_iff (a.chars = b.chars) ⟨Identifier.eq_of_chars, congrArg _⟩

/-- The name of an outermost class, with the packages it is in. -/
structure OuterName where
  chars : List Char
  ne_nil : chars ≠ []
  path : ∀ c ∈ chars, isPathChar c = true
  deriving Repr

theorem OuterName.eq_of_chars {a b : OuterName} (h : a.chars = b.chars) : a = b := by
  cases a
  cases b
  cases h
  rfl

instance : DecidableEq OuterName := fun a b =>
  decidable_of_iff (a.chars = b.chars) ⟨OuterName.eq_of_chars, congrArg _⟩

/-- The bound that a type argument sets. -/
inductive Bound where
  | exact | upper | lower
  deriving DecidableEq, Repr

def Bound.chars : Bound → List Char
  | .exact => []
  | .upper => ['+']
  | .lower => ['-']

mutual

inductive SignatureType where
  | primitive (p : Primitive)
  | reference (r : ReferenceType)
  deriving Repr

inductive ReferenceType where
  | object (c : ClassType)
  | typeVariable (name : Identifier)
  | array (component : SignatureType)
  deriving Repr

/-- A class with type arguments, either outermost or a member of another one. -/
inductive ClassType where
  | outer (name : OuterName) (arguments : List TypeArgument)
  | member (enclosing : ClassType) (name : Identifier) (arguments : List TypeArgument)
  deriving Repr

inductive TypeArgument where
  | any
  | type (bound : Bound) (r : ReferenceType)
  deriving Repr

end

/-- The name of a class with those of the classes around it. -/
def ClassType.path : ClassType → List Char
  | .outer name _ => name.chars
  | .member enclosing name _ => enclosing.path ++ '$' :: name.chars

/-- Type arguments between their brackets, which are left out around none. -/
def bracketed (arguments : List Char) : List Char :=
  if arguments = [] then [] else '<' :: (arguments ++ ['>'])

mutual

def SignatureType.chars : SignatureType → List Char
  | .primitive p => [p.code]
  | .reference r => r.chars

def ReferenceType.chars : ReferenceType → List Char
  | .object c => 'L' :: (c.inside ++ [';'])
  | .typeVariable name => 'T' :: (name.chars ++ [';'])
  | .array component => '[' :: component.chars

/-- A class type without the characters that start and end it. -/
def ClassType.inside : ClassType → List Char
  | .outer name arguments => name.chars ++ bracketed (argumentsChars arguments)
  | .member enclosing name arguments =>
    enclosing.inside ++ '.' :: (name.chars ++ bracketed (argumentsChars arguments))

def TypeArgument.chars : TypeArgument → List Char
  | .any => ['*']
  | .type bound r => bound.chars ++ r.chars

def argumentsChars : List TypeArgument → List Char
  | [] => []
  | a :: rest => a.chars ++ argumentsChars rest

end

def ClassType.chars (c : ClassType) : List Char := 'L' :: (c.inside ++ [';'])

mutual

def SignatureType.names : SignatureType → List String
  | .primitive _ => []
  | .reference r => r.names

def ReferenceType.names : ReferenceType → List String
  | .object c => c.names
  | .typeVariable _ => []
  | .array component => component.names

/-- A class type names its own class, the classes around it and those in all type arguments. -/
def ClassType.names : ClassType → List String
  | .outer name arguments => dotted name.chars :: argumentsNames arguments
  | .member enclosing name arguments =>
    enclosing.names ++
      dotted (enclosing.path ++ '$' :: name.chars) :: argumentsNames arguments

def TypeArgument.names : TypeArgument → List String
  | .any => []
  | .type _ r => r.names

def argumentsNames : List TypeArgument → List String
  | [] => []
  | a :: rest => a.names ++ argumentsNames rest

end

structure TypeParameter where
  name : Identifier
  classBound : Option ReferenceType
  interfaceBounds : List ReferenceType
  deriving Repr

namespace TypeParameter

def chars (p : TypeParameter) : List Char :=
  p.name.chars ++ ':' :: ((p.classBound.elim [] ReferenceType.chars) ++
    p.interfaceBounds.flatMap fun r => ':' :: r.chars)

def names (p : TypeParameter) : List String :=
  p.classBound.elim [] ReferenceType.names ++ p.interfaceBounds.flatMap ReferenceType.names

def unbounded (p : TypeParameter) : Bool := p.classBound.isNone && p.interfaceBounds.isEmpty

/-- The name of the parameter could be taken for the start of a bound. -/
def looksLikeBound (p : TypeParameter) : Bool :=
  p.name.chars.head? = some 'L' || p.name.chars.head? = some 'T'

/-- No parameter could be taken for the bound of the one before it. -/
def separate : List TypeParameter → Bool
  | [] => true
  | [_] => true
  | p :: q :: rest => !(p.unbounded && q.looksLikeBound) && separate (q :: rest)

end TypeParameter

def typeParametersChars (ps : List TypeParameter) : List Char :=
  bracketed (ps.flatMap TypeParameter.chars)

/-- What a method declares to throw. -/
inductive Thrown where
  | object (c : ClassType)
  | typeVariable (name : Identifier)
  deriving Repr

def Thrown.type : Thrown → ReferenceType
  | .object c => .object c
  | .typeVariable name => .typeVariable name

/-- The signature of a method; one without a result is void. -/
structure MethodSignature where
  typeParameters : List TypeParameter
  parameters : List SignatureType
  result : Option SignatureType
  throws : List Thrown
  deriving Repr

namespace MethodSignature

def chars (m : MethodSignature) : List Char :=
  typeParametersChars m.typeParameters ++ '(' :: (m.parameters.flatMap SignatureType.chars ++
    ')' :: (m.result.elim ['V'] SignatureType.chars ++
      m.throws.flatMap fun t => '^' :: t.type.chars))

def names (m : MethodSignature) : List String :=
  m.typeParameters.flatMap TypeParameter.names ++ m.parameters.flatMap SignatureType.names ++
    m.result.elim [] SignatureType.names ++ m.throws.flatMap fun t => t.type.names

end MethodSignature

structure ClassSignature where
  typeParameters : List TypeParameter
  superclass : ClassType
  interfaces : List ClassType
  deriving Repr

namespace ClassSignature

def chars (s : ClassSignature) : List Char :=
  typeParametersChars s.typeParameters ++ s.superclass.chars ++ s.interfaces.flatMap ClassType.chars

def names (s : ClassSignature) : List String :=
  s.typeParameters.flatMap TypeParameter.names ++ s.superclass.names ++
    s.interfaces.flatMap ClassType.names

end ClassSignature

theorem ClassType.path_ne_nil (c : ClassType) : c.path ≠ [] := by
  cases c with
  | outer name _ => simpa [path] using name.ne_nil
  | member enclosing name _ => simp [path]

theorem ClassType.semicolon_not_mem_path : ∀ c : ClassType, ';' ∉ c.path
  | .outer name _ => fun h => by
    have := name.path _ h
    simp [isPathChar, isStop] at this
  | .member enclosing name _ => by
    have hn : ';' ∉ name.chars := fun h => by simpa [isStop] using name.no_stop _ h
    simp [path, semicolon_not_mem_path enclosing, hn]

def ClassType.internalName (c : ClassType) : InternalName :=
  ⟨c.path, c.path_ne_nil, c.semicolon_not_mem_path⟩

mutual

/-- The descriptor of a type whose arguments are left out. A type variable has none. -/
def SignatureType.erase : SignatureType → Option FieldType
  | .primitive p => some ⟨0, .primitive p⟩
  | .reference r => r.erase

def ReferenceType.erase : ReferenceType → Option FieldType
  | .object c => some ⟨0, .object c.internalName⟩
  | .typeVariable _ => none
  | .array component => component.erase.map fun t => ⟨t.dimensions + 1, t.element⟩

end

/-- The descriptor of a method whose types all have one. -/
def MethodSignature.erase (m : MethodSignature) : Option MethodType := do
  let parameters ← m.parameters.mapM SignatureType.erase
  match m.result with
  | none => return ⟨parameters, .void⟩
  | some t => return ⟨parameters, .value (← t.erase)⟩

end ClassUsage.Signature
