import ClassUsage.Trace.Code

/-!
The way through a whole trace: the header of the class, its annotations, record components, fields
and methods, then what is nested in it or around it. Keys that no trace has are warned about and
otherwise ignored.
-/
namespace ClassUsage

open Traversal

/-- A recorded class. -/
structure Trace where
  name : String
  members : Members
  deriving Repr

/-- A document is a trace if it is an object with the name of a class. -/
def Trace.ofJson (origin : String) : Json → Except TraceError Trace
  | .object m =>
    match Members.find? m "name" with
    | some (.string name) => if name = "" then .error (.missingName origin) else .ok ⟨name, m⟩
    | _ => .error (.missingName origin)
  | v => .error (.notAnObject origin v.typeWord)

def classKeys : List String :=
  ["name", "version", "access", "signature", "super", "interfaces", "annotations",
   "type_annotations", "record_components", "fields", "methods", "nest_host", "nest_members",
   "permitted_subclasses", "inner_classes", "outer_class", "source"]

def fieldKeys : List String :=
  ["name", "access", "desc", "signature", "value", "annotations", "type_annotations"]

def methodKeys : List String :=
  ["name", "access", "desc", "signature", "exceptions", "parameters", "code", "try_catch",
   "local_variables", "maxs", "annotation_default", "annotations", "type_annotations",
   "parameter_annotations"]

/-- The keys of an element that are not known, in order. -/
def unknownKeys (known : List String) (m : Members) : List String :=
  (NameSet.ofList ((m.map Prod.fst).filter fun k => !known.contains k)).toList

variable {L : Type}

def warnUnknown (known : List String) (element : String) (m : Members) : Traversal L :=
  match unknownKeys known m with
  | [] => .done
  | keys => .warn ⟨element, keys⟩ .done

/-- The annotations of a declaration, and those of its types. -/
def declarationAnnotations (m : Members) (annotated : AnnotationHead → Event L)
    (typeAnnotated : TypeAnnotationHead → Event L) : Traversal L :=
  annotationEvents m "annotations" readAnnotationHead annotated ++
    annotationEvents m "type_annotations" readTypeAnnotationHead typeAnnotated

/-- What a field says before its annotations. -/
def readField (name : String) (m : Members) : Except Fault ClassEvent := do
  let access ← m.orElse .integer "access" (.number 0)
  let desc ← m.required .text "desc"
  let signature ← m.optional .text "signature"
  let value ← readConstant ((m.find? "value").getD .null)
  return .field access name desc signature value

def fieldBody (m : Members) : Traversal L :=
  declarationAnnotations m (fun a => .field (.annotated a)) (fun a => .field (.typeAnnotated a)) ++
    event (.field .finish)

def fieldEvents (m : Members) : Traversal L :=
  check (m.required .text "name") fun name =>
    warnUnknown fieldKeys ("field " ++ name) m ++
      check (readField name m) fun e => scope (.classFile e) (fieldBody m)

/-- What a method says before its parameters and code. -/
def readMethod (name : String) (m : Members) : Except Fault ClassEvent := do
  let access ← m.orElse .integer "access" (.number 0)
  let desc ← m.required .text "desc"
  let signature ← m.optional .text "signature"
  let exceptions ← m.optionalEntries .text "exceptions"
  return .method access name desc signature exceptions

def readParameter (m : Members) : Except Fault (MethodEvent String) := do
  let name ← m.optional .text "name"
  let access ← m.orElse .integer "access" (.number 0)
  return .parameter name access

/-- The default value of an annotation element. -/
def defaultValueEvents (m : Members) : Traversal L :=
  match m.get? "annotation_default" with
  | some v => scope (.method .defaultValue) (valueEvents none v ++ event (.value .finish))
  | none => .done

def methodBody (m : Members) : Traversal String :=
  check (m.entries .object "parameters")
      (each · fun p => check (readParameter p) fun e => event (.method e)) ++
    check (m.optional .list "code") (fun
      | some _ => codeEvents m
      | none => .done) ++
    defaultValueEvents m ++
    declarationAnnotations m (fun a => .method (.annotated a))
      (fun a => .method (.typeAnnotated a)) ++
    annotationEvents m "parameter_annotations" readParameterAnnotation
      (fun (index, a) => .method (.parameterAnnotated index a)) ++
    event (.method .finish)

/-- Turn the label names of a method into positions of its code. The number of a label is the place
of its first mention among all mentions. -/
def bindLabels (code : Nat) (t : Traversal String) : Traversal Label :=
  t.map fun name => ⟨code, t.labels.idxOf name, some name⟩

/-- The way through the method that is the `index`-th of its class. -/
def methodEvents (index : Nat) (m : Members) : Traversal Label :=
  check (m.required .text "name") fun name =>
    warnUnknown methodKeys ("method " ++ name) m ++
      check (readMethod name m) fun e => scope (.classFile e) (bindLabels index (methodBody m))

def readHeader (t : Trace) : Except Fault ClassEvent := do
  let version ← t.members.orElse .integer "version" (.number 52)
  let access ← t.members.orElse .integer "access" (.number 0)
  let signature ← t.members.optional .text "signature"
  let superName ← t.members.optional .text "super"
  let interfaces ← t.members.optionalEntries .text "interfaces"
  return .header version access t.name signature superName interfaces

def readRecordComponent (m : Members) : Except Fault ClassEvent := do
  let name ← m.required .text "name"
  let desc ← m.required .text "desc"
  let signature ← m.optional .text "signature"
  return .recordComponent name desc signature

def readInnerClass (m : Members) : Except Fault ClassEvent := do
  let name ← m.required .text "name"
  let outer ← m.optional .text "outer_name"
  let inner ← m.optional .text "inner_name"
  let access ← m.orElse .integer "access" (.number 0)
  return .innerClass name outer inner access

def readOuterClass (m : Members) : Except Fault ClassEvent := do
  let owner ← m.required .text "owner"
  let name ← m.optional .text "name"
  let desc ← m.optional .text "desc"
  return .outerClass owner name desc

/-- The event of a text that may be absent; an empty one counts as absent. -/
def textEvent (m : Members) (key : String) (toEvent : String → ClassEvent) : Traversal L :=
  check (m.optional .text key) fun
    | some s => if s = "" then .done else event (.classFile (toEvent s))
    | none => .done

def textEvents (m : Members) (key : String) (toEvent : String → ClassEvent) : Traversal L :=
  check (m.entries .text key) (each · fun s => event (.classFile (toEvent s)))

def objectEvents (m : Members) (key : String) (read : Members → Except Fault ClassEvent) :
    Traversal L :=
  check (m.entries .object key) (each · fun o => check (read o) fun e => event (.classFile e))

def outerClassEvents (m : Members) : Traversal L :=
  check (m.optional .object "outer_class") fun
    | some o => check (readOuterClass o) fun e => event (.classFile e)
    | none => .done

/-- The way through a recorded class, in the order of a class file. -/
def Trace.traversal (t : Trace) : Traversal Label :=
  let m := t.members
  warnUnknown classKeys t.name m ++
    check (readHeader t) (fun e => event (.classFile e)) ++
    declarationAnnotations m (fun a => .classFile (.annotated a))
      (fun a => .classFile (.typeAnnotated a)) ++
    objectEvents m "record_components" readRecordComponent ++
    check (m.entries .object "fields") (each · fieldEvents) ++
    check (m.entries .object "methods") (fun ms => each ms.zipIdx fun (o, i) => methodEvents i o) ++
    textEvent m "nest_host" .nestHost ++
    textEvents m "nest_members" .nestMember ++
    textEvents m "permitted_subclasses" .permittedSubclass ++
    objectEvents m "inner_classes" readInnerClass ++
    outerClassEvents m ++
    textEvent m "source" (fun s => .source (some s) none) ++
    event (.classFile .finish)

end ClassUsage
