import ClassUsage.Proofs.Trace.Records
import ClassUsage.Proofs.Trace.Usage

/-!
What is collected from a recorded class is what it uses. Each element of a document yields the classes
that it names; the main statement puts the elements together.
-/
namespace ClassUsage

open Traversal

variable {L : Type} {m : Members}

section Annotations

/-- The classes named by the values of an annotation, not by the annotation itself. -/
def EntryNames (m : Members) (x : String) : Prop :=
  ∃ e ∈ m.items .object "values", ∃ v, e.get? "value" = some v ∧ ValueNames v x

theorem yields_object (m : Members)
    (hnested : ∀ n, m.required .object "annotation" = .ok n →
      (annotationBody n : Traversal L).Yields (EntryNames n))
    (hitems : ∀ items, m.required .list "array" = .ok items → ∀ v ∈ items, ∀ name,
      (valueEvents name v : Traversal L).Yields (ValueNames v)) (name : Option String) :
    (valueEvents name (.object m) : Traversal L).Yields (ValueNames (.object m)) := by
  cases he : m.hasKey "enum" with
  | true =>
    rw [valueEvents_enum he]
    apply Yields.check
    intro e hread
    simp only [readEnumConstant, bind_eq_ok, pure_eq_ok] at hread
    obtain ⟨desc, hdesc, value, -, rfl⟩ := hread
    refine (yields_event _).congr fun x => ?_
    rw [valueNames_enum he, Members.value?_of_required hdesc]
    simp [Event.Names, Event.mentions, ValueEvent.mentions]
  | false =>
    cases ha : m.hasKey "annotation" with
    | true =>
      rw [valueEvents_nested he ha]
      apply Yields.check
      intro n hn
      apply Yields.check
      intro desc hdesc
      refine (hnested n hn).scope.congr fun x => ?_
      rw [valueNames_nested he (Members.value?_of_required hn), annotationNames_iff,
        Members.value?_of_required hdesc]
      simp [Event.Names, Event.mentions, ValueEvent.mentions, EntryNames]
    | false =>
      cases hl : m.hasKey "array" with
      | true =>
        rw [valueEvents_array he ha hl]
        apply Yields.check
        intro items hlist
        have hbody : (itemEvents items ++ event (.value .finish) : Traversal L).Yields
            fun x => ∃ v ∈ items, ValueNames v x := by
          rw [itemEvents_eq]
          exact (Yields.each fun v hv => hitems items hlist v hv none).append_silent (.silent rfl)
        refine hbody.scope.congr fun x => ?_
        rw [valueNames_array he ha (Members.value?_of_required hlist)]
        simp [Event.Names, Event.mentions, ValueEvent.mentions]
      | false =>
        rw [valueEvents_tagged he ha hl]
        apply Yields.check
        intro c hc
        refine (yields_event _).congr fun x => ?_
        rw [valueNames_literal he ha hl, ← names_readTagged hc]
        simp [Event.Names, Event.mentions, ValueEvent.mentions]

theorem yields_entries (m : Members)
    (hvalues : ∀ es, m.entries .object "values" = .ok es → ∀ e ∈ es, ∀ v,
      e.requiredValue "value" = .ok v → ∀ name,
        (valueEvents name v : Traversal L).Yields (ValueNames v)) :
    (annotationBody m : Traversal L).Yields (EntryNames m) := by
  rw [annotationBody_eq]
  apply Yields.check
  intro es hes
  rw [entryEvents_eq]
  refine Yields.append_silent ?_ (.silent rfl)
  have hentry : ∀ e ∈ es, (entryValue e : Traversal L).Yields
      fun x => ∃ v, e.get? "value" = some v ∧ ValueNames v x := by
    intro e he
    apply Yields.check
    intro name _
    apply Yields.check
    intro v hv
    refine (hvalues es hes e he v hv name).congr fun x => ?_
    simp [Members.get?_of_requiredValue hv]
  refine (Yields.each hentry).congr fun x => ?_
  rw [EntryNames, Members.items_of_entries hes]

theorem yields_values : (∀ v name, (valueEvents name v : Traversal L).Yields (ValueNames v)) ∧
    ∀ m, (annotationBody m : Traversal L).Yields (EntryNames m) := by
  apply value_induction
  · intro v hplain name
    rw [valueEvents_plain hplain]
    refine (yields_event _).congr fun x => ?_
    simp [not_valueNames_plain hplain, Event.Names, Event.mentions, ValueEvent.mentions]
  · exact yields_object
  · exact yields_entries

/-- What counts of the head of an annotation is its descriptor, however the head is read. -/
theorem yields_annotationEvents {α : Type} (key : String) {read : Members → Except Fault α}
    {toEvent : α → Event L} (desc : α → String)
    (hread : ∀ a head, read a = .ok head → a.value? .text "desc" = some (desc head))
    (hevent : ∀ head, (toEvent head).mentions = [.descriptor (desc head)]) :
    (annotationEvents m key read toEvent).Yields (m.AnnotatedNames key) := by
  apply Yields.check
  intro as has
  have hone : ∀ a ∈ as, (check (read a) fun head => scope (toEvent head) (annotationBody a)).Yields
      (AnnotationNames a) := by
    intro a _
    apply Yields.check
    intro head hhead
    refine (yields_values.2 a).scope.congr fun x => ?_
    rw [annotationNames_iff, hread a head hhead]
    simp [Event.Names, hevent, EntryNames]
  refine (Yields.each hone).congr fun x => ?_
  rw [Members.AnnotatedNames, Members.items_of_entries has]

theorem yields_typeAnnotations (key : String) {toEvent : TypeAnnotationHead → Event L}
    (hevent : ∀ head, (toEvent head).mentions = [.descriptor head.desc]) :
    (annotationEvents m key readTypeAnnotationHead toEvent).Yields (m.AnnotatedNames key) :=
  yields_annotationEvents key (·.desc) (fun _ _ h => (recordsTypeAnnotated_of_read h).1) hevent

theorem yields_declarationAnnotations {annotated : AnnotationHead → Event L}
    {typeAnnotated : TypeAnnotationHead → Event L}
    (hannotated : ∀ head, (annotated head).mentions = [.descriptor head.desc])
    (htypeAnnotated : ∀ head, (typeAnnotated head).mentions = [.descriptor head.desc]) :
    (declarationAnnotations m annotated typeAnnotated).Yields fun x =>
      m.AnnotatedNames "annotations" x ∨ m.AnnotatedNames "type_annotations" x :=
  (yields_annotationEvents "annotations" (·.desc) (fun _ _ h => (recordsAnnotated_of_read h).1)
    hannotated).append (yields_typeAnnotations "type_annotations" htypeAnnotated)

end Annotations

section Code

variable {x : String}

/-- The classes named by the operands of the instructions that take operands of one kind. -/
def OperandKind.Names (kind : OperandKind) (m : Members) (x : String) : Prop :=
  match kind with
  | .type => ∃ name, m.value? .text "type" = some name ∧ OwnerNames name x
  | .field => ∃ owner, m.value? .text "owner" = some owner ∧ x = className owner
  | .method => ∃ owner, m.value? .text "owner" = some owner ∧ OwnerNames owner x
  | .constant => ∃ v, m.get? "value" = some v ∧ LiteralNames v x
  | .arrayType => ∃ desc, m.value? .text "desc" = some desc ∧ DescriptorNames desc x
  | _ => False

theorem operandNames_eq (op : Opcode) : OperandNames op m x = op.operands.Names m x := by
  cases op <;> rfl

theorem names_of_recordsOperands {op : Opcode} {e : MethodEvent String}
    (h : m.RecordsOperands op e) (x : String) :
    (Event.method e).Names x ↔ OperandNames op m x := by
  rw [operandNames_eq]
  unfold Members.RecordsOperands at h
  cases hk : op.operands <;> rw [hk] at h <;>
    simp only [Event.Names, Event.mentions, OperandKind.Names]
  case number | slot | label | lookup =>
    obtain ⟨_, _, rfl⟩ := h
    simp [MethodEvent.mentions]
  case type =>
    obtain ⟨name, hname, rfl⟩ := h
    simp [MethodEvent.mentions, hname]
  case field =>
    obtain ⟨owner, name, desc, howner, -, -, rfl⟩ := h
    simp [MethodEvent.mentions, howner]
  case method =>
    obtain ⟨owner, name, desc, howner, -, -, rfl⟩ := h
    simp [MethodEvent.mentions, howner]
  case constant =>
    obtain ⟨v, c, hv, hc, rfl⟩ := h
    simp [MethodEvent.mentions, hv, names_readConstant hc]
  case increment =>
    obtain ⟨index, amount, -, -, rfl⟩ := h
    simp [MethodEvent.mentions]
  case table =>
    obtain ⟨low, high, default, -, -, -, rfl⟩ := h
    simp [MethodEvent.mentions]
  case dynamicCall =>
    obtain ⟨name, desc, bootstrap, arguments, -, -, -, -, rfl⟩ := h
    simp [MethodEvent.mentions]
  case arrayType =>
    obtain ⟨desc, dimensions, hdesc, -, rfl⟩ := h
    simp [MethodEvent.mentions, hdesc]
  case nothing =>
    subst h
    simp [MethodEvent.mentions]

/-- The marks between instructions name nothing. -/
theorem mentions_of_recordsMark {e : Event String} (h : m.RecordsMark e) : e.mentions = [] := by
  rcases h with ⟨_, _, _, _, rfl⟩ | ⟨_, _, _, rfl⟩ | ⟨_, _, _, _, _, _, _, _, _, _, rfl⟩ <;> rfl

theorem yields_codeEntryEvents (m : Members) : (codeEntryEvents m).Yields m.CodeEntryNames := by
  unfold codeEntryEvents
  by_cases hop : m.hasKey "op" = true
  · rw [if_pos hop]
    apply Yields.check
    intro e he
    obtain ⟨name, op, told, hname, hfound, htold, hsame⟩ := recordsInstruction_of_read he
    cases hsame
    refine ((yields_event _).append (yields_typeAnnotations "annotations" fun _ => rfl)).congr
      fun x => ?_
    rw [Members.CodeEntryNames, names_of_recordsOperands htold]
    simp [hop, hname, hfound]
  · rw [if_neg hop]
    apply Yields.check
    intro e he
    refine (Yields.silent (mentions_of_recordsMark (recordsMark_of_read he))).congr fun x => ?_
    simp [Members.CodeEntryNames, hop]

theorem names_internals (names : List String) :
    (∃ m ∈ names.map Mention.internal, m.Names x) ↔ ∃ name ∈ names, x = className name := by
  constructor
  · rintro ⟨m, hm, hx⟩
    obtain ⟨name, hname, rfl⟩ := List.mem_map.mp hm
    exact ⟨name, hname, (Mention.names_internal name).mp hx⟩
  · rintro ⟨name, hname, hx⟩
    exact ⟨.internal name, List.mem_map_of_mem hname, (Mention.names_internal name).mpr hx⟩

theorem yields_handlerEvents (m : Members) : (handlerEvents m).Yields m.HandlerNames := by
  apply Yields.check
  intro e he
  refine ((yields_event _).append (yields_typeAnnotations "annotations" fun _ => rfl)).congr
    fun x => ?_
  obtain ⟨start, stop, target, -, -, -, hsame⟩ := recordsHandler_of_read he
  cases hsame
  simp only [Event.Names, Event.mentions, MethodEvent.mentions, names_internals]
  simp [Members.HandlerNames]

theorem names_typeMention {desc : String} (hdesc : m.value? .text "desc" = some desc) (x : String) :
    (typeMention (m.value? .text "signature") desc).Names x ↔ m.DeclaredNames .type x := by
  rw [Members.DeclaredNames]
  cases m.value? .text "signature" <;> simp [typeMention, hdesc]

theorem yields_localVariableEvents (m : Members) :
    (localVariableEvents m).Yields m.LocalVariableNames := by
  apply Yields.check
  intro v hv
  refine ((yields_event _).append (yields_typeAnnotations "annotations" fun _ => rfl)).congr
    fun x => ?_
  obtain ⟨-, -, -, -, hdesc, hsignature⟩ := recordsLocalVariable_of_read hv
  simp [Members.LocalVariableNames, Event.Names, Event.mentions, MethodEvent.mentions, hsignature,
    names_typeMention hdesc]

/-- Each of the objects listed under a key yields what `P` says of it. -/
theorem yields_entriesEach {α : Type} (m : Members) (kind : Kind α) (key : String)
    {f : α → Traversal L} {P : α → String → Prop} (h : ∀ a, (f a).Yields (P a)) :
    (check (m.entries kind key) (each · f)).Yields fun x => ∃ a ∈ m.items kind key, P a x := by
  apply Yields.check
  intro as has
  rw [Members.items_of_entries has]
  exact Yields.each fun a _ => h a

theorem yields_codeEvents (m : Members) : (codeEvents m).Yields m.CodeNames := by
  have hcode : (event (.method .code) : Traversal String).Yields fun _ => False := .silent rfl
  have hhandlers := yields_entriesEach m .object "try_catch" yields_handlerEvents
  have hentries := yields_entriesEach m .object "code" yields_codeEntryEvents
  have hvariables := yields_entriesEach m .object "local_variables" yields_localVariableEvents
  have hlimits : (check (readLimits m) fun e => event (.method e)).Yields fun _ => False := by
    apply Yields.check
    intro e he
    obtain ⟨limits, -, hsame⟩ := recordsLimits_of_read he
    rw [hsame]
    exact .silent rfl
  refine ((((hcode.append hhandlers).append hentries).append hvariables).append_silent hlimits).congr
    fun x => ?_
  simp [Members.CodeNames, or_assoc]

end Code

section Declarations

variable {x : String}

theorem yields_warnUnknown (known : List String) (element : String) (m : Members) :
    (warnUnknown known element m : Traversal L).Yields fun _ => False := by
  unfold warnUnknown
  split
  · exact yields_done
  · intro _ x
    simp [play]

/-- The value of a field is looked up as it stands, so that a null counts as a plain value. -/
theorem names_fieldValue {c : Value} (h : readConstant ((m.find? "value").getD .null) = .ok c)
    (x : String) :
    (Mention.constant c).Names x ↔ ∃ v, m.find? "value" = some v ∧ LiteralNames v x := by
  rw [names_readConstant h]
  cases m.find? "value" with
  | none => simp [not_literalNames (v := .null) (by simp)]
  | some v => simp

theorem yields_fieldEvents (m : Members) : (fieldEvents m : Traversal L).Yields m.FieldNames := by
  apply Yields.check
  intro name hname
  have hfield : (check (readField name m) fun e => scope (.classFile e) (fieldBody m) :
      Traversal L).Yields m.FieldNames := by
    apply Yields.check
    intro e he
    have hbody : (fieldBody m : Traversal L).Yields fun x =>
        m.AnnotatedNames "annotations" x ∨ m.AnnotatedNames "type_annotations" x :=
      (yields_declarationAnnotations (fun _ => rfl) fun _ => rfl).append_silent (.silent rfl)
    refine hbody.scope.congr fun x => ?_
    obtain ⟨_, desc, value, -, hdesc, hvalue, hsame⟩ := recordsField_of_read (L := L) hname he
    rw [hsame]
    simp [Members.FieldNames, Event.Names, Event.mentions, ClassEvent.mentions,
      names_typeMention hdesc, names_fieldValue hvalue, or_assoc]
  exact ((yields_warnUnknown _ _ m).append hfield).congr fun x => by simp

theorem yields_defaultValueEvents (m : Members) : (defaultValueEvents m : Traversal L).Yields
    fun x => ∃ v, m.get? "annotation_default" = some v ∧ ValueNames v x := by
  unfold defaultValueEvents
  cases m.get? "annotation_default" with
  | none => exact yields_done.congr fun x => by simp
  | some v =>
    have hbody : (valueEvents none v ++ event (.value .finish) : Traversal L).Yields
        (ValueNames v) := (yields_values.1 v none).append_silent (.silent rfl)
    refine hbody.scope.congr fun x => ?_
    simp [Event.Names, Event.mentions, MethodEvent.mentions]

theorem yields_code (m : Members) : (check (m.optional .list "code") fun
      | some _ => codeEvents m
      | none => .done).Yields fun x => m.value? .list "code" ≠ none ∧ m.CodeNames x := by
  apply Yields.check
  intro o ho
  rw [Members.value?_of_optional ho]
  cases o with
  | none => exact yields_done.congr fun x => by simp
  | some items => exact (yields_codeEvents m).congr fun x => by simp

theorem desc_of_readParameterAnnotation {a : Members} {p : Integer × AnnotationHead}
    (h : readParameterAnnotation a = .ok p) : a.value? .text "desc" = some p.2.desc := by
  obtain ⟨parameter, head, -, hhead, hsame⟩ := recordsParameterAnnotated_of_read (L := String) h
  cases hsame
  exact hhead.1

theorem yields_parameter (p : Members) :
    (check (readParameter p) fun e => event (.method e)).Yields fun _ => False := by
  apply Yields.check
  intro e he
  have hsame := recordsParameter_of_read he
  unfold Members.RecordsParameter at hsame
  rw [hsame]
  exact .silent rfl

theorem yields_methodBody (m : Members) : (methodBody m).Yields fun x =>
    (m.value? .list "code" ≠ none ∧ m.CodeNames x) ∨
      (∃ v, m.get? "annotation_default" = some v ∧ ValueNames v x) ∨
      m.AnnotatedNames "annotations" x ∨
      m.AnnotatedNames "type_annotations" x ∨
      m.AnnotatedNames "parameter_annotations" x := by
  have hparameters := yields_entriesEach m .object "parameters" yields_parameter
  have hannotations : (declarationAnnotations m (fun a => .method (.annotated a))
      (fun a => .method (.typeAnnotated a)) : Traversal String).Yields fun x =>
        m.AnnotatedNames "annotations" x ∨ m.AnnotatedNames "type_annotations" x :=
    yields_declarationAnnotations (fun _ => rfl) fun _ => rfl
  refine (((((hparameters.append (yields_code m)).append (yields_defaultValueEvents m)).append
    hannotations).append (yields_annotationEvents "parameter_annotations" (·.2.desc)
      (fun _ _ => desc_of_readParameterAnnotation) fun _ => rfl)).append_silent
    (.silent rfl)).congr fun x => ?_
  simp [or_assoc]

theorem yields_methodEvents (index : Nat) (m : Members) :
    (methodEvents index m).Yields m.MethodNames := by
  apply Yields.check
  intro name hname
  have hmethod : (check (readMethod name m) fun e =>
      scope (.classFile e) (bindLabels index (methodBody m))).Yields m.MethodNames := by
    apply Yields.check
    intro e he
    refine ((yields_methodBody m).map).scope.congr fun x => ?_
    have hdeclared : (Event.classFile e : Event Label).Names x ↔
        m.DeclaredNames .method x ∨ ∃ name ∈ m.items .text "exceptions", x = className name := by
      obtain ⟨_, desc, exceptions, -, hdesc, hexceptions, hsame⟩ :=
        recordsMethod_of_read (L := Label) hname he
      rw [hsame, Members.DeclaredNames, Members.items_of_optionalEntries hexceptions,
        ← names_internals]
      cases m.value? .text "signature" <;>
        simp [Event.Names, Event.mentions, ClassEvent.mentions, hdesc]
    rw [hdeclared, Members.MethodNames, or_assoc]
  exact ((yields_warnUnknown _ _ m).append hmethod).congr fun x => by simp

end Declarations

section Classes

theorem yields_header (t : Trace) : (check (readHeader t) fun e => event (.classFile e) :
    Traversal L).Yields t.members.HeaderNames := by
  apply Yields.check
  intro e he
  refine (yields_event _).congr fun x => ?_
  obtain ⟨interfaces, hinterfaces, hsame⟩ := recordsHeader_of_read (L := L) he
  rw [hsame, Members.HeaderNames, Members.items_of_optionalEntries hinterfaces]
  cases t.members.value? .text "signature" with
  | some s => simp [Event.Names, Event.mentions, ClassEvent.mentions]
  | none =>
    simp only [Event.Names, Event.mentions, ClassEvent.mentions, names_internals]
    simp [or_and_right, exists_or]

/-- Of what is listed in a class, only fields and methods name classes. -/
theorem yields_objectEvents (m : Members) (key : String) {read : Members → Except Fault ClassEvent}
    (hread : ∀ o e, read o = .ok e → e.mentions = []) :
    (objectEvents m key read : Traversal L).Yields fun _ => False := by
  have hone : ∀ o, (check (read o) fun e => event (.classFile e) : Traversal L).Yields
      fun _ => False := fun o => Yields.check fun e he => .silent (hread o e he)
  exact (yields_entriesEach m .object key hone).congr fun x => by simp

theorem yields_textEvents (m : Members) (key : String) {toEvent : String → ClassEvent}
    (hevent : ∀ s, (toEvent s).mentions = []) :
    (textEvents m key toEvent : Traversal L).Yields fun _ => False := by
  have hone : ∀ s, (event (.classFile (toEvent s)) : Traversal L).Yields fun _ => False :=
    fun s => .silent (hevent s)
  exact (yields_entriesEach m .text key hone).congr fun x => by simp

theorem yields_textEvent (m : Members) (key : String) {toEvent : String → ClassEvent}
    (hevent : ∀ s, (toEvent s).mentions = []) :
    (textEvent m key toEvent : Traversal L).Yields fun _ => False := by
  apply Yields.check
  intro o _
  cases o with
  | none => exact yields_done
  | some s =>
    by_cases hs : s = ""
    · simp only [hs, if_true]
      exact yields_done
    · simp only [hs, if_false]
      exact .silent (hevent s)

theorem mentions_readRecordComponent {m : Members} {e : ClassEvent}
    (h : readRecordComponent m = .ok e) : e.mentions = [] := by
  obtain ⟨name, desc, -, -, hsame⟩ := recordsComponent_of_read (L := Label) h
  cases hsame
  rfl

theorem mentions_readInnerClass {m : Members} {e : ClassEvent} (h : readInnerClass m = .ok e) :
    e.mentions = [] := by
  obtain ⟨name, -, hsame⟩ := recordsInnerClass_of_read (L := Label) h
  cases hsame
  rfl

theorem yields_outerClassEvents (m : Members) :
    (outerClassEvents m : Traversal L).Yields fun _ => False := by
  apply Yields.check
  intro o _
  cases o with
  | none => exact yields_done
  | some outer =>
    apply Yields.check
    intro e he
    obtain ⟨owner, -, hsame⟩ := recordsOuterClass_of_read (L := L) he
    rw [hsame]
    exact .silent rfl

theorem yields_methods (m : Members) : (check (m.entries .object "methods") fun ms =>
    each ms.zipIdx fun (o, i) => methodEvents i o).Yields
      fun x => ∃ o ∈ m.items .object "methods", o.MethodNames x := by
  apply Yields.check
  intro ms hms
  rw [Members.items_of_entries hms]
  have hnumbered : ∀ p ∈ ms.zipIdx, (methodEvents p.2 p.1).Yields p.1.MethodNames :=
    fun p _ => yields_methodEvents p.2 p.1
  refine (Yields.each hnumbered).congr fun x => ?_
  constructor
  · rintro ⟨⟨o, i⟩, ho, hx⟩
    exact ⟨o, List.fst_mem_of_mem_zipIdx ho, hx⟩
  · rintro ⟨o, ho, hx⟩
    obtain ⟨i, hi, rfl⟩ := List.mem_iff_getElem.mp ho
    exact ⟨(ms[i], i), List.mk_mem_zipIdx_iff_getElem?.mpr (List.getElem?_eq_getElem hi), hx⟩

theorem yields_traversal (t : Trace) : t.traversal.Yields t.members.Uses := by
  have hannotations : (declarationAnnotations t.members (fun a => .classFile (.annotated a))
      (fun a => .classFile (.typeAnnotated a)) : Traversal Label).Yields fun x =>
        t.members.AnnotatedNames "annotations" x ∨ t.members.AnnotatedNames "type_annotations" x :=
    yields_declarationAnnotations (fun _ => rfl) fun _ => rfl
  have hcomponents : (objectEvents t.members "record_components" readRecordComponent :
      Traversal Label).Yields fun _ => False :=
    yields_objectEvents _ _ fun _ _ => mentions_readRecordComponent
  have hfields := yields_entriesEach (L := Label) t.members .object "fields" yields_fieldEvents
  have hinner : (objectEvents t.members "inner_classes" readInnerClass :
      Traversal Label).Yields fun _ => False :=
    yields_objectEvents _ _ fun _ _ => mentions_readInnerClass
  refine ((((((((((((yields_warnUnknown _ _ t.members).append (yields_header t)).append
    hannotations).append hcomponents).append hfields).append (yields_methods t.members)).append
    (yields_textEvent _ _ fun _ => rfl)).append (yields_textEvents _ _ fun _ => rfl)).append
    (yields_textEvents _ _ fun _ => rfl)).append hinner).append
    (yields_outerClassEvents t.members)).append (yields_textEvent _ _ fun _ => rfl)).append
    (.silent rfl) |>.congr fun x => ?_
  simp [Members.Uses, or_assoc]

/-- If the analysis of a recorded class succeeds, its result is the set of the classes used. -/
theorem mem_analysis_iff_uses (t : Trace) (names : NameSet) (h : t.analyze.result = .ok names)
    (x : String) : x ∈ names ↔ t.members.Uses x := by
  obtain ⟨hfault, hnames⟩ := Trace.mem_analyze h
  rw [hnames x]
  exact yields_traversal t hfault x

/-- A class that names others in most of the ways there are, and two that do not count: the parameter
of a method type, and the type of a field that is read. -/
def annotatedCounter : Trace where
  name := "app/Counter"
  members :=
    [("name", .string "app/Counter"),
     ("super", .string "app/Base"),
     ("annotations", .list [.object
       [("desc", .string "Lapp/Marked;"),
        ("values", .list [.object
          [("value", .object [("array", .list
            [.object [("enum", .string "Lapp/Level;"), ("value", .string "HIGH")],
             .object [("annotation", .object [("desc", .string "Lapp/Note;")])],
             .object [("type", .string "[Lapp/Limit;")],
             .object [("type", .string "(Lapp/Ignored;)V")]])])]])]]),
     ("fields", .list [.object
       [("name", .string "items"), ("desc", .string "Ljava/util/List;"),
        ("signature", .string "Ljava/util/Set<Lapp/Item;>;")]]),
     ("methods", .list [.object
       [("name", .string "next"), ("desc", .string "(Lapp/Step;)V"),
        ("exceptions", .list [.string "app/Overflow"]),
        ("code", .list
          [.object [("op", .string "new"), ("type", .string "app/Entry")],
           .object [("op", .string "getfield"), ("owner", .string "app/Cell"), ("name", .string "n"),
             ("desc", .string "Lapp/Ignored;")],
           .object [("op", .string "invokevirtual"), ("owner", .string "[Lapp/Row;"),
             ("name", .string "clone"), ("desc", .string "()V")],
           .object [("label", .string "end")]]),
        ("try_catch", .list [.object
          [("start", .string "a"), ("end", .string "b"), ("handler", .string "end"),
           ("type", .string "app/Failure")]])]])]

theorem mem_analysis_iff_uses_counter : ∃ names, annotatedCounter.analyze.result = .ok names ∧
    names.toList = ["app.Base", "app.Cell", "app.Entry", "app.Failure", "app.Item", "app.Level",
      "app.Limit", "app.Marked", "app.Note", "app.Overflow", "app.Row", "app.Step",
      "java.util.Set"] ∧
    ∀ x, x ∈ names ↔ annotatedCounter.members.Uses x := by
  have heval : annotatedCounter.analyze.result.toOption.map NameSet.toList =
      some ["app.Base", "app.Cell", "app.Entry", "app.Failure", "app.Item", "app.Level",
        "app.Limit", "app.Marked", "app.Note", "app.Overflow", "app.Row", "app.Step",
        "java.util.Set"] := by
    decide +kernel
  cases h : annotatedCounter.analyze.result with
  | error f =>
    rw [h] at heval
    contradiction
  | ok names =>
    rw [h] at heval
    exact ⟨names, rfl, Option.some.inj heval, mem_analysis_iff_uses annotatedCounter names h⟩

end Classes

end ClassUsage
