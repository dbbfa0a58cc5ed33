import ClassUsage.Proofs.Trace.Pattern
import ClassUsage.Proofs.Trace.Records

/-!
The order of events that a document asks for: for each part of a document a pattern of the events that
record its elements. The pattern of a class is that of the class-file order.
-/
namespace ClassUsage

variable {L : Type}

/-- No instruction opens a scope or ends one. -/
theorem plain_of_recordsOperands {o : Members} {op : Opcode} {e : MethodEvent String}
    (h : o.RecordsOperands op e) : (Event.method e).Plain .method := by
  unfold Members.RecordsOperands at h
  cases hk : op.operands <;> rw [hk] at h
  case number | slot | type | label | lookup =>
    obtain ⟨_, _, rfl⟩ := h
    exact ⟨rfl, rfl, rfl⟩
  case field | method | table =>
    obtain ⟨_, _, _, _, _, _, rfl⟩ := h
    exact ⟨rfl, rfl, rfl⟩
  case constant | increment | arrayType =>
    obtain ⟨_, _, _, _, rfl⟩ := h
    exact ⟨rfl, rfl, rfl⟩
  case dynamicCall =>
    obtain ⟨_, _, _, _, _, _, _, _, rfl⟩ := h
    exact ⟨rfl, rfl, rfl⟩
  case nothing =>
    cases h
    exact ⟨rfl, rfl, rfl⟩

section Values

variable {wanted : Event L → Bool}

mutual

/-- The events of a value of an annotation. -/
def valuePattern (name : Option String) (v : Json) : Pattern wanted .values :=
  match v with
  | .object m =>
    if Members.hasKey m "enum" then
      .one (fun e => ∃ desc value, Members.value? m .text "enum" = some desc ∧
          Members.value? m .text "value" = some value ∧ e = .value (.enumConstant name desc value))
        (by rintro _ ⟨desc, value, -, -, rfl⟩; exact ⟨rfl, rfl, rfl⟩)
    else if Members.hasKey m "annotation" then
      match _h : Members.required m .object "annotation" with
      | .ok nested =>
        .opening (fun e => ∃ desc, nested.value? .text "desc" = some desc ∧
            e = .value (.nested name desc))
          (by rintro _ ⟨desc, -, rfl⟩; exact ⟨rfl, rfl⟩) (annotationPattern nested)
      | .error _ => .never
    else if Members.hasKey m "array" then
      match _h : Members.required m .list "array" with
      | .ok items =>
        .opening (· = .value (.array name)) (by rintro _ rfl; exact ⟨rfl, rfl⟩) (itemPatterns items)
      | .error _ => .never
    else
      .one (fun e => ∃ c, readTagged m = .ok c ∧ e = .value (.constant name c))
        (by rintro _ ⟨c, -, rfl⟩; exact ⟨rfl, rfl, rfl⟩)
  | v => .just (.value (.constant name (.plain v))) ⟨rfl, rfl, rfl⟩
termination_by sizeOf v
decreasing_by
  · have := Members.sizeOf_required_object _h
    simp only [Json.object.sizeOf_spec]
    omega
  · have := Members.sizeOf_required_list _h
    simp only [Json.object.sizeOf_spec]
    omega

/-- The events of the values of an annotation, up to its last event. -/
def annotationPattern (m : Members) : Pattern wanted .values :=
  match _h : m.entries .object "values" with
  | .ok es => entryPatterns es
  | .error _ => .never
termination_by sizeOf m + 1
decreasing_by
  have := Members.sizeOf_entries _h
  omega

def entryPatterns (es : List Members) : Pattern wanted .values :=
  match es with
  | [] => .nothing
  | e :: es =>
    (match _h : e.requiredValue "value" with
      | .ok v => valuePattern (e.value? .text "name") v
      | .error _ => .never) ++ entryPatterns es
termination_by sizeOf es
decreasing_by
  · have := Members.sizeOf_requiredValue _h
    simp only [List.cons.sizeOf_spec]
    omega
  · simp only [List.cons.sizeOf_spec]
    omega

def itemPatterns (items : List Json) : Pattern wanted .values :=
  match items with
  | [] => .nothing
  | v :: items => valuePattern none v ++ itemPatterns items
termination_by sizeOf items
decreasing_by
  · simp only [List.cons.sizeOf_spec]
    omega
  · simp only [List.cons.sizeOf_spec]
    omega

end

end Values

section Annotations

variable {wanted : Event L → Bool} {s : Scope}

/-- The annotations listed under a key, each with the scope of its values. -/
def annotatedPattern (m : Members) (key : String) (P : Members → Event L → Prop)
    (h : ∀ a e, P a e → e.Opens s .values) : Pattern wanted s :=
  .listed m .object key fun a => .opening (P a) (h a) (annotationPattern a)

def typeAnnotatedPattern (m : Members) (key : String) (toEvent : TypeAnnotationHead → Event L)
    (h : ∀ head, (toEvent head).Opens s .values) : Pattern wanted s :=
  annotatedPattern m key (fun a e => ∃ head, a.RecordsTypeAnnotated head ∧ e = toEvent head)
    (by rintro a _ ⟨head, -, rfl⟩; exact h head)

/-- The annotations of a declaration, then those of its types. -/
def declarationPattern (m : Members) (annotated : AnnotationHead → Event L)
    (typeAnnotated : TypeAnnotationHead → Event L)
    (ha : ∀ head, (annotated head).Opens s .values)
    (ht : ∀ head, (typeAnnotated head).Opens s .values) : Pattern wanted s :=
  annotatedPattern m "annotations" (fun a e => ∃ head, a.RecordsAnnotated head ∧ e = annotated head)
      (by rintro a _ ⟨head, -, rfl⟩; exact ha head) ++
    typeAnnotatedPattern m "type_annotations" typeAnnotated ht

/-- The event of a field, and its scope. -/
def fieldPattern (o : Members) : Pattern wanted .classFile :=
  .opening o.RecordsField (by rintro _ ⟨_, _, _, _, _, _, rfl⟩; exact ⟨rfl, rfl⟩)
    (declarationPattern (s := .field) o (fun a => .field (.annotated a))
      (fun a => .field (.typeAnnotated a)) (fun _ => ⟨rfl, rfl⟩) (fun _ => ⟨rfl, rfl⟩))

end Annotations

section Methods

variable {wanted : Event String → Bool}

def handlerPattern (o : Members) : Pattern wanted .method :=
  .one o.RecordsHandler (by rintro _ ⟨_, _, _, _, _, _, rfl⟩; exact ⟨rfl, rfl, rfl⟩) ++
    typeAnnotatedPattern o "annotations" (fun a => .method (.handlerAnnotated a))
      fun _ => ⟨rfl, rfl⟩

/-- Only instructions have annotations, not the marks between them. -/
def codeEntryPattern (o : Members) : Pattern wanted .method :=
  if o.hasKey "op" then
    .one o.RecordsInstruction
        (by rintro _ ⟨_, _, _, _, _, htold, rfl⟩; exact plain_of_recordsOperands htold) ++
      typeAnnotatedPattern o "annotations" (fun a => .method (.instructionAnnotated a))
        fun _ => ⟨rfl, rfl⟩
  else
    .one o.RecordsMark (by
      rintro _ (⟨_, _, _, _, rfl⟩ | ⟨_, _, _, rfl⟩ | ⟨_, _, _, _, _, _, _, _, _, _, rfl⟩) <;>
        exact ⟨rfl, rfl, rfl⟩)

def localVariablePattern (o : Members) : Pattern wanted .method :=
  .one (fun e => ∃ v, o.RecordsLocalVariable v ∧
      e = .method (.localVariable v.name v.desc v.signature v.start v.stop v.index))
      (by rintro _ ⟨_, _, rfl⟩; exact ⟨rfl, rfl, rfl⟩) ++
    annotatedPattern o "annotations"
      (fun a e => ∃ v head, o.RecordsLocalVariable v ∧ a.RecordsTypeAnnotated head ∧
        e = .method (.localVariableAnnotated head [v.start] [v.stop] [v.index]))
      (by rintro a _ ⟨_, _, _, _, rfl⟩; exact ⟨rfl, rfl⟩)

/-- The code of a method: handlers, then instructions and marks, then local variables, then limits. -/
def codePattern (m : Members) : Pattern wanted .method :=
  .just (.method .code) ⟨rfl, rfl, rfl⟩ ++
    .listed m .object "try_catch" handlerPattern ++
    .listed m .object "code" codeEntryPattern ++
    .listed m .object "local_variables" localVariablePattern ++
    .one m.RecordsLimits (by rintro _ ⟨_, _, rfl⟩; exact ⟨rfl, rfl, rfl⟩)

/-- The default value of an annotation element is a scope with one value. -/
def defaultValuePattern (v : Json) : Pattern wanted .method :=
  .opening (· = .method .defaultValue) (by rintro _ rfl; exact ⟨rfl, rfl⟩) (valuePattern none v)

/-- The scope of a method, up to its last event. There are events of code just if there is a list of
code, also an empty one. -/
def methodPattern (m : Members) : Pattern wanted .method :=
  .listed m .object "parameters"
      (fun p => .one p.RecordsParameter (by rintro _ rfl; exact ⟨rfl, rfl, rfl⟩)) ++
    .given (m.value? .list "code") (fun _ => codePattern m) ++
    .given (m.get? "annotation_default") defaultValuePattern ++
    declarationPattern m (fun a => .method (.annotated a)) (fun a => .method (.typeAnnotated a))
      (fun _ => ⟨rfl, rfl⟩) (fun _ => ⟨rfl, rfl⟩) ++
    annotatedPattern m "parameter_annotations" Members.RecordsParameterAnnotated
      (by rintro a _ ⟨_, _, _, _, rfl⟩; exact ⟨rfl, rfl⟩)

end Methods

section Classes

variable {wanted : Event Label → Bool}

/-- The labels of a method carry the names that the document gives them. -/
def KeepsNames (f : String → Label) : Prop := ∀ name, (f name).name = some name

/-- The event of a method, and its scope. -/
def methodScopePattern (o : Members) : Pattern wanted .classFile :=
  .opening o.RecordsMethod (by rintro _ ⟨_, _, _, _, _, _, rfl⟩; exact ⟨rfl, rfl⟩)
    (.relabelled KeepsNames fun _ => methodPattern o)

/-- The event of a text under a key, unless it is absent or empty. -/
def textPattern (m : Members) (key : String) (toEvent : String → Event Label)
    (h : ∀ text, (toEvent text).Plain .classFile) : Pattern wanted .classFile :=
  .given ((m.value? .text key).filter (· ≠ "")) fun text => .just (toEvent text) (h text)

def textsPattern (m : Members) (key : String) (toEvent : String → Event Label)
    (h : ∀ text, (toEvent text).Plain .classFile) : Pattern wanted .classFile :=
  .listed m .text key fun text => .just (toEvent text) (h text)

def headerPattern (t : Trace) : Pattern wanted .classFile :=
  .one (t.members.RecordsHeader t.name) (by rintro _ ⟨_, _, rfl⟩; exact ⟨rfl, rfl, rfl⟩)

def componentPattern (o : Members) : Pattern wanted .classFile :=
  .one o.RecordsComponent (by rintro _ ⟨_, _, _, _, rfl⟩; exact ⟨rfl, rfl, rfl⟩)

def innerClassPattern (o : Members) : Pattern wanted .classFile :=
  .one o.RecordsInnerClass (by rintro _ ⟨_, _, rfl⟩; exact ⟨rfl, rfl, rfl⟩)

def outerClassPattern (o : Members) : Pattern wanted .classFile :=
  .one o.RecordsOuterClass (by rintro _ ⟨_, _, rfl⟩; exact ⟨rfl, rfl, rfl⟩)

/-- The scope of a class, up to its last event. -/
def classPattern (t : Trace) : Pattern wanted .classFile :=
  headerPattern t ++
    declarationPattern t.members (fun a => .classFile (.annotated a))
      (fun a => .classFile (.typeAnnotated a)) (fun _ => ⟨rfl, rfl⟩) (fun _ => ⟨rfl, rfl⟩) ++
    .listed t.members .object "record_components" componentPattern ++
    .listed t.members .object "fields" fieldPattern ++
    .listed t.members .object "methods" methodScopePattern ++
    textPattern t.members "nest_host" (fun s => .classFile (.nestHost s))
      (fun _ => ⟨rfl, rfl, rfl⟩) ++
    textsPattern t.members "nest_members" (fun s => .classFile (.nestMember s))
      (fun _ => ⟨rfl, rfl, rfl⟩) ++
    textsPattern t.members "permitted_subclasses" (fun s => .classFile (.permittedSubclass s))
      (fun _ => ⟨rfl, rfl, rfl⟩) ++
    .listed t.members .object "inner_classes" innerClassPattern ++
    .given (t.members.value? .object "outer_class") outerClassPattern ++
    textPattern t.members "source" (fun s => .classFile (.source (some s) none))
      (fun _ => ⟨rfl, rfl, rfl⟩)

end Classes

end ClassUsage
