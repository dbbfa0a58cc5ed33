import ClassUsage.DecodingError
import ClassUsage.Signature.Basic

/-!
Generic signatures, read one character at a time. A stack holds what is still expected, innermost
first; each character is taken by the frame on top, which puts the frames that are left of it in its
place and may complete the name of a class. So a text is refused at the first character that no
accepted text could have there.
-/
namespace ClassUsage.Signature

/-- What is still expected. -/
inductive Frame where
  | type
  | reference
  | classType
  /-- The first character of the name of an outermost class. -/
  | outerName
  /-- The first character of the name of a class nested in `enclosing`. -/
  | innerName (enclosing : List Char)
  /-- More of a class name, with all that has been read of it. -/
  | className (slashes : Bool) (read : List Char)
  /-- What follows the type arguments of a class. -/
  | classRest (name : List Char)
  | firstArgument
  | arguments
  | variableName
  | variableRest
  | firstParameter
  | parameterRest
  /-- What follows the colon of a type parameter. -/
  | classBound
  | bounds
  | classSignature
  | superTypes
  | methodSignature
  | parameterList
  | parameters
  | result
  | throws
  | thrown
  deriving DecidableEq, Repr

/-- What taking a character leaves to be read, and the class name it completes. -/
structure Move where
  frames : List Frame
  found : Option (List Char)
  deriving DecidableEq, Repr

abbrev Step := Except Reason Move

def goOn (frames : List Frame) : Step := .ok ⟨frames, none⟩

/-- Expect more after what a step leaves. -/
def followedBy (s : Step) (frames : List Frame) : Step :=
  match s with
  | .ok m => .ok ⟨m.frames ++ frames, m.found⟩
  | .error r => .error r

def afterClass (name : List Char) (found : Option (List Char)) : Char → Step
  | '.' => .ok ⟨[.innerName name], found⟩
  | ';' => .ok ⟨[], found⟩
  | _ => .error (.expected ';')

def inClassName (slashes : Bool) (read : List Char) (c : Char) : Step :=
  if !isStop c || (slashes && c = '/') then goOn [.className slashes (read ++ [c])]
  else if c = '<' then .ok ⟨[.firstArgument, .classRest read], some read⟩
  else afterClass read (some read) c

def startClass : Char → Step
  | 'L' => goOn [.outerName]
  | _ => .error (.expected 'L')

def startReference : Char → Step
  | 'L' => goOn [.outerName]
  | 'T' => goOn [.variableName]
  | '[' => goOn [.type]
  | c => .error (.expectedReference c)

def startType (c : Char) : Step :=
  match Primitive.ofCode? c with
  | some _ => goOn []
  | none => startReference c

def inArguments : Char → Step
  | '>' => goOn []
  | '*' => goOn [.arguments]
  | '+' => goOn [.reference, .arguments]
  | '-' => goOn [.reference, .arguments]
  | c => followedBy (startReference c) [.arguments]

def startParameter (c : Char) : Step :=
  if isStop c then .error .missingIdentifier else goOn [.parameterRest]

def inBounds : Char → Step
  | ':' => goOn [.reference, .bounds]
  | '>' => goOn []
  | c => startParameter c

def openParameterList : Char → Step
  | '(' => goOn [.parameters, .result, .throws]
  | _ => .error (.expected '(')

/-- What a frame makes of a character. -/
def Frame.take : Frame → Char → Step
  | .type, c => startType c
  | .reference, c => startReference c
  | .classType, c => startClass c
  | .outerName, c =>
    if isPathChar c then goOn [.className true [c]] else .error .missingIdentifier
  | .innerName enclosing, c =>
    if isStop c then .error .missingIdentifier
    else goOn [.className false (enclosing ++ ['$', c])]
  | .className slashes read, c => inClassName slashes read c
  | .classRest name, c => afterClass name none c
  | .firstArgument, c => if c = '>' then .error .emptyTypeArguments else inArguments c
  | .arguments, c => inArguments c
  | .variableName, c => if isStop c then .error .missingIdentifier else goOn [.variableRest]
  | .variableRest, c =>
    if !isStop c then goOn [.variableRest]
    else if c = ';' then goOn []
    else .error (.expected ';')
  | .firstParameter, c => if c = '>' then .error .emptyTypeParameters else startParameter c
  | .parameterRest, c =>
    if !isStop c then goOn [.parameterRest]
    else if c = ':' then goOn [.classBound]
    else .error (.expected ':')
  | .classBound, c =>
    if c = 'L' || c = 'T' || c = '[' then followedBy (startReference c) [.bounds] else inBounds c
  | .bounds, c => inBounds c
  | .classSignature, c =>
    if c = '<' then goOn [.firstParameter, .classType, .superTypes]
    else followedBy (startClass c) [.superTypes]
  | .superTypes, c => followedBy (startClass c) [.superTypes]
  | .methodSignature, c =>
    if c = '<' then goOn [.firstParameter, .parameterList] else openParameterList c
  | .parameterList, c => openParameterList c
  | .parameters, c => if c = ')' then goOn [] else followedBy (startType c) [.parameters]
  | .result, c => if c = 'V' then goOn [] else startType c
  | .throws, c => if c = '^' then goOn [.thrown, .throws] else .error (.expected '^')
  | .thrown, c =>
    if c = 'L' then goOn [.outerName]
    else if c = 'T' then goOn [.variableName]
    else .error .notThrowable

/-- Why a text may not end here; a list of supertypes or of thrown types may. -/
def Frame.atEnd : Frame → Option Reason
  | .superTypes => none
  | .throws => none
  | .outerName => some .missingIdentifier
  | .innerName _ => some .missingIdentifier
  | .variableName => some .missingIdentifier
  | _ => some .unexpectedEnd

def addFound (found : Option (List Char)) (names : NameSet) : NameSet :=
  match found with
  | some name => names.insert (dotted name)
  | none => names

/-- Read until nothing more is expected. Gives the names met and what is left of the text. -/
def scan : List Frame → NameSet → List Char → Except Failure (NameSet × List Char)
  | [], names, s => .ok (names, s)
  | frames, names, [] =>
    match frames.findSome? Frame.atEnd with
    | some reason => .error ⟨[], reason⟩
    | none => .ok (names, [])
  | frame :: frames, names, c :: s =>
    match frame.take c with
    | .ok move => scan (move.frames ++ frames) (addFound move.found names) s
    | .error reason => .error ⟨c :: s, reason⟩

/-- Read a text that holds nothing more than is expected. -/
def scanAll (frame : Frame) (s : List Char) : Except Failure NameSet :=
  match scan [frame] ∅ s with
  | .ok (names, []) => .ok names
  | .ok (_, rest) => .error ⟨rest, .trailingAfterSignature⟩
  | .error f => .error f

end ClassUsage.Signature

namespace ClassUsage

/-- What a signature is the signature of. -/
inductive SignatureKind where
  | type
  | method
  | classFile
  deriving DecidableEq, Repr

def SignatureKind.start : SignatureKind → Signature.Frame
  | .type => .type
  | .method => .methodSignature
  | .classFile => .classSignature

/-- The classes a signature names. -/
def decodeSignature (kind : SignatureKind) (text : String) : Except DecodingError NameSet :=
  (Signature.scanAll kind.start text.toList).mapError (Failure.locate text)

end ClassUsage
